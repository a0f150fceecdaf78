import Schematic.Component.Plain
import Schematic.Value.Literal
import Schematic.Yaml.Writer

/-!
# Writing components

A component as text: compact JSON, JSON with a line for each item, or YAML.
-/

namespace Schematic

/-- The formats of written documents. -/
inductive Format where
  | json
  | yaml
  deriving DecidableEq

def Format.ofName? (name : Text) : Option Format :=
  if name = Text.ofString "json" then some .json
  else if name = Text.ofString "yaml" then some .yaml
  else none

/-- Why data is not written. -/
inductive WriteError where
  /-- There is no format with this name. -/
  | unsupported (name : Text)
  /-- A part has no plain form. -/
  | plain (e : PlainError)
  /-- An integer has too many digits. -/
  | tooManyDigits
  deriving DecidableEq

def WriteError.message : WriteError → Text
  | .unsupported name => "Unsupported output format: " ++ name
  | .plain e => e.message
  | .tooManyDigits => tooManyDigitsText

namespace Json

mutual

/-- Some integer of the data is too long to be written. -/
def isTooLong : Json → Bool
  | .int n => Value.isTooLong n
  | .array items => anyTooLong items
  | .object entries => anyEntryTooLong entries
  | .null | .bool _ | .float _ | .text _ => false

/-- Some integer of the items is too long. -/
def anyTooLong : List Json → Bool
  | [] => false
  | j :: js => j.isTooLong || anyTooLong js

/-- Some integer of the entries is too long. -/
def anyEntryTooLong : List (Text × Json) → Bool
  | [] => false
  | (_, j) :: es => j.isTooLong || anyEntryTooLong es

end

end Json

/-- The text of an object in a format. -/
def Format.text : Format → List (Text × Json) → Text
  | .json, entries => Json.render Json.indented (.object entries)
  | .yaml, entries => Yaml.render entries

namespace Component

/-- A component as a document in the format of a name. -/
def dump (formatName : Text) (c : Component) : Except WriteError Text :=
  match Format.ofName? formatName with
  | none => .error (.unsupported formatName)
  | some format => do
    let entries ← c.plain.mapError .plain
    if Json.anyEntryTooLong entries then throw .tooManyDigits
    return format.text entries

/-- A component as compact JSON text. Two keys of a map that are spelled alike are both written. -/
def toJson (c : Component) : Except PlainError Text := do
  let j ← c.toValue.plain
  match j.unwritable? with
  | some u => throw (.unwritable u)
  | none => return Json.render Json.compact j

end Component

end Schematic
