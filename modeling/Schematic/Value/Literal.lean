import Schematic.Json.Writer

/-!
# Values as literals

The form that a value has in an environment variable. A text stands for itself, null is no value at
all, and everything else is JSON text in ASCII. Bytes, dates, times and sets have no such form, and
a key has to be a text, a number, a truth value or null.
-/

namespace Schematic

/-- Why a value has no literal. -/
inductive LiteralError where
  | kind (v : Value)
  | key (v : Value)
  | tooManyDigits

/-- What is said of an integer that is too long to be written. -/
def tooManyDigitsText : Text :=
  "Exceeds the limit (4300 digits) for integer string conversion; "
    ++ "use sys.set_int_max_str_digits() to increase the limit"

def Value.keyKindName : Value → Text
  | .date _ => "datetime.date"
  | .dateTime _ => "datetime.datetime"
  | v => v.kindName

def LiteralError.message : LiteralError → Text
  | .kind v => "Object of type " ++ v.kindName ++ " is not JSON serializable"
  | .key v => "keys must be str, int, float, bool or None, not " ++ v.keyKindName
  | .tooManyDigits => tooManyDigitsText

namespace Value

/-- The least natural number that is too long to be written. -/
def writingLimit : Nat := 10 ^ 4300

/-- The integer is too long to be written. -/
def isTooLong (n : Int) : Bool := decide (writingLimit ≤ n.natAbs)

def literalKey : Value → Except LiteralError Text
  | .text t => .ok t
  | .null => .ok "null"
  | .bool b => .ok (if b then "true" else "false")
  | .int n => if isTooLong n then .error .tooManyDigits else .ok (Text.ofInt n)
  | .float x => .ok (Json.wideNumbers.text x)
  | v => .error (.key v)

mutual

/-- A value as a literal; entries of one name are all kept. -/
def literal : Value → Except LiteralError Json
  | .null => .ok .null
  | .bool b => .ok (.bool b)
  | .int n => if isTooLong n then .error .tooManyDigits else .ok (.int n)
  | .float x => .ok (.float x)
  | .text t => .ok (.text t)
  | .list vs | .tuple vs => do
    let items ← literalItems vs
    return .array items
  | .map es => do
    let entries ← literalEntries es
    return .object entries
  | v => .error (.kind v)

def literalItems : List Value → Except LiteralError (List Json)
  | [] => .ok []
  | v :: vs => do
    let j ← v.literal
    let js ← literalItems vs
    return j :: js

def literalEntries : List (Value × Value) → Except LiteralError (List (Text × Json))
  | [] => .ok []
  | (k, v) :: es => do
    let name ← k.literalKey
    let j ← v.literal
    let rest ← literalEntries es
    return (name, j) :: rest

end

/-- The value of an environment variable. -/
def envText : Value → Except LiteralError (Option Text)
  | .null => .ok none
  | .text t => .ok (some t)
  | v => do
    let j ← v.literal
    return some (Json.render Json.ascii j)

end Value

end Schematic
