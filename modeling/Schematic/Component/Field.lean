import Schematic.Component.Problem
import Schematic.Text.Numeral
import Schematic.Text.Utf8

/-!
# Fields

How the fields of a record are read from a value. Reading is strict about kinds: a text is no number
and a truth value is no integer. Three things that only values in memory can hold are let pass:
bytes that are UTF-8 stand for a text, and tuples and sets stand for lists. A truth value may be
spelled by a word, or be the number 0 or 1.
-/

namespace Schematic

/-- How to read a part of a value of some dialect. -/
abbrev FieldReader (α : Type) := Dialect → Value → Checked α

namespace FieldReader

variable {α : Type}

def any : FieldReader Value := fun _ v => .valid v

/-- A text, or bytes that are one. -/
def text : FieldReader Text := fun _ v =>
  match v with
  | .text t => .valid t
  | .bytes bs =>
    match Utf8.decode bs with
    | .ok t => .valid t
    | .error _ => .fail .notUnicode
  | _ => .fail .notText

/-- The least and the greatest integer of 32 bits. -/
def int32Range : Int × Int := (-2147483648, 2147483647)

def int32 : FieldReader Int32 := fun _ v =>
  match v with
  | .int n =>
    if n < int32Range.1 then .fail .tooSmall
    else if int32Range.2 < n then .fail .tooGreat
    else .valid (Int32.ofInt n)
  | _ => .fail .notInteger

/-- The words for true and for false. -/
def truthWords : List (String × Bool) :=
  [("1", true), ("t", true), ("y", true), ("on", true), ("yes", true), ("true", true),
    ("0", false), ("f", false), ("n", false), ("no", false), ("off", false), ("false", false)]

/-- The text holds half of a surrogate pair, and so has no bytes. -/
def hasLoneHalf (t : Text) : Bool := t.chars?.isNone

/-- A truth value by its word. -/
def truthOfWord (t : Text) : Checked Bool :=
  if hasLoneHalf t then .fail .notUnicode
  else
    match truthWords.find? fun w => t.asciiLower == Text.ofString w.1 with
    | some (_, b) => .valid b
    | none => .fail .unclearBoolean

/-- The integer is one of 64 bits. -/
def isInt64 (n : Int) : Bool := -2 ^ 63 ≤ n && n < 2 ^ 63

/-- A truth value by its number. A number that is whole and of 64 bits could have been meant as
one. -/
def truthOfInt (n : Int) : Checked Bool :=
  if n = 1 then .valid true
  else if n = 0 then .valid false
  else if isInt64 n then .fail .unclearBoolean
  else .fail .notBoolean

/-- The integer that a double is, if it lies between the ends of the integers of 64 bits. -/
def wholeDouble? (x : Double) : Option Int :=
  match x.steps? with
  | none => none
  | some n =>
    let q := n / Double.stepsOfOne
    if n % Double.stepsOfOne = 0 ∧ -2 ^ 63 < q ∧ q < 2 ^ 63 then some q else none

/-- A truth value, a word for one, or 0 or 1. -/
def bool : FieldReader Bool := fun _ v =>
  match v with
  | .bool b => .valid b
  | .text t => truthOfWord t
  | .bytes bs =>
    match Utf8.decode bs with
    | .ok t => truthOfWord t
    | .error _ => .fail .unclearBoolean
  | .int n => truthOfInt n
  | .float x =>
    match wholeDouble? x with
    | some n => truthOfInt n
    | none => .fail .notBoolean
  | _ => .fail .notBoolean

def choice (all : List α) (token : α → Text) : FieldReader α := fun dialect v =>
  match text dialect v with
  | .valid t =>
    if hasLoneHalf t then .fail .notUnicode
    else
      match all.find? fun a => token a == t with
      | some a => .valid a
      | none => .fail (.notOneOf (all.map token))
  | .invalid _ => .fail (.notOneOf (all.map token))

/-- Null, or a part of some kind. -/
def optional (read : FieldReader α) : FieldReader (Option α) := fun dialect v =>
  match v with
  | .null => .valid none
  | v => (read dialect v).map some

def items? : Value → Option (List Value)
  | .list vs | .tuple vs | .set vs => some vs
  | _ => none

/-- A list of parts of one kind. -/
def list (read : FieldReader α) : FieldReader (List α) := fun dialect v =>
  match items? v with
  | some vs => .list (vs.zipIdx.map fun (v, i) => (read dialect v).under (.index i))
  | none => .fail (.notList dialect)

end FieldReader

/-- The entries of a value that is read as a record. -/
structure Fields where
  dialect : Dialect
  entries : List (Value × Value)

namespace Fields

variable {α : Type}

/-- A field that has to be there. -/
def need (fs : Fields) (name : Text) (read : FieldReader α) : Checked α :=
  match Value.get? name fs.entries with
  | some v => (read fs.dialect v).under (.name name)
  | none => .invalid [⟨[.name name], .missing⟩]

/-- A field with a default. -/
def take (fs : Fields) (name : Text) (default : α) (read : FieldReader α) : Checked α :=
  match Value.get? name fs.entries with
  | some v => (read fs.dialect v).under (.name name)
  | none => .valid default

end Fields

/-- A record of some name, read field by field. Fields of other names are passed over. -/
def FieldReader.record {α : Type} (name : Text) (read : Fields → Checked α) : FieldReader α :=
  fun dialect v =>
    match v with
    | .map entries => read ⟨dialect, entries⟩
    | _ => .fail (.notRecord dialect name)

end Schematic
