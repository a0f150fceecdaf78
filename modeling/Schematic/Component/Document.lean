import Schematic.Component.Record
import Schematic.Json.Reader
import Schematic.Json.Strict
import Schematic.Yaml.Reader

/-!
# Components in documents

Reading a component from a value and from text. Text is read as JSON first, and as YAML when it is
not JSON; what it holds has to be a mapping, and the mapping a component.
-/

namespace Schematic.Component

/-- Why a document gives no component. -/
inductive ReadError where
  /-- The document is empty, or null. -/
  | empty
  /-- The text of the document is refused. -/
  | malformed (document : Text) (e : Yaml.Error)
  /-- The document is no mapping. -/
  | notMap (v : Value)
  /-- Parts of the document are wrong. -/
  | problems (ps : List Problem)
  /-- A whole number of a JSON document has too many digits. -/
  | tooManyDigits (count : Nat)
  /-- A scalar of a YAML document does not become what it looks like. -/
  | unconverted (e : Yaml.ConversionError)

def ReadError.message : ReadError → Text
  | .empty => "Malformed component document: empty document"
  | .malformed document e => "Malformed component document: " ++ e.message document
  | .notMap v => "Invalid component: expected a mapping, got " ++ v.kindName
  | .problems ps => "Invalid component: " ++ Text.join "; " (ps.map Problem.text)
  | .tooManyDigits count => (Yaml.ConversionError.tooManyDigits count).message
  | .unconverted e => e.message

/-- The component in a value. -/
def ofValue (v : Value) : Except ReadError Component :=
  match v with
  | .map _ => (Component.read .values v).toExcept.mapError .problems
  | v => .error (.notMap v)

def valueOfYaml (t : Text) : Except ReadError Value :=
  (Yaml.read t).mapError fun
    | .refused e => .malformed t e
    | .unconverted e => .unconverted e

/-- The value in a document, which is JSON or else YAML. -/
def valueOfText (t : Text) : Except ReadError Value :=
  match Json.read t with
  | .ok j => .ok j.toValue
  | .error (.tooManyDigits count) => .error (.tooManyDigits count)
  | .error (.malformed _) => valueOfYaml t

/-- The component in a document. -/
def ofText (t : Text) : Except ReadError Component := do
  match ← valueOfText t with
  | .null => throw .empty
  | v => ofValue v

/-- Read JSON text by the strict grammar, as a record of some kind. -/
def readJson {α : Type} (read : FieldReader α) (t : Text) : Checked α :=
  if (Utf8.unwritable? t).isSome then .fail .notUnicode
  else
    match Json.Strict.read t with
    | .error e => .fail (.malformedJson e.message)
    | .ok j => read .jsonText j.toValue

/-- The component in JSON text. -/
def ofJson (t : Text) : Except ReadError Component :=
  (readJson Component.read t).toExcept.mapError .problems

end Schematic.Component
