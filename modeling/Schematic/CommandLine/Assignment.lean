import Schematic.Component.Resolution
import Schematic.Yaml.Reader

/-!
# Assignments

The values of parameters on the command line, written `name=value`. The value is a YAML document, or
the empty text when nothing is written. A name that is assigned twice keeps its first place and its
last value.
-/

namespace Schematic.CommandLine

/-- Why an assignment is refused. -/
inductive AssignmentError where
  /-- There is no name, or no equals sign. -/
  | malformed (item : Text)
  /-- The value is no YAML document. -/
  | refused (name document : Text) (e : Yaml.Error)
  /-- The value looks like something that it does not become. -/
  | unconverted (e : Yaml.ConversionError)

def AssignmentError.message : AssignmentError → Text
  | .malformed item => "Invalid --param '" ++ item ++ "', expected name=value"
  | .refused name document e =>
    "Invalid value for --param '" ++ name ++ "': " ++ e.message document
  | .unconverted e => e.message

def assignedValue (name document : Text) : Except AssignmentError Value :=
  if document.isEmpty then .ok (.text [])
  else
    (Yaml.read document).mapError fun
      | .refused e => .refused name document e
      | .unconverted e => .unconverted e

def assignment (item : Text) : Except AssignmentError (Text × Value) :=
  match Text.splitFirst? (.char '=') item with
  | none | some ([], _) => .error (.malformed item)
  | some (name, document) => do
    let v ← assignedValue name document
    return (name, v)

end Schematic.CommandLine

namespace Schematic

namespace Bindings

/-- The bindings after a name is bound: a name that is there keeps its place. -/
def bind (name : Text) (v : Value) : Bindings → Bindings
  | [] => [(name, v)]
  | (k, w) :: rest => if k = name then (k, v) :: rest else (k, w) :: bind name v rest

end Bindings

/-- The values that assignments give to names. -/
def CommandLine.assignments (items : List Text) : Except AssignmentError Bindings :=
  items.foldlM (fun bs item => do
    let (name, v) ← assignment item
    return bs.bind name v) []

end Schematic
