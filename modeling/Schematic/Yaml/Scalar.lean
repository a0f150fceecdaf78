import Schematic.Text.LowerCase
import Schematic.Text.Numeral
import Schematic.Value
import Schematic.Yaml.Binary
import Schematic.Yaml.Tag

/-!
# Values of scalars

What the content of a scalar stands for under a tag. A number may be grouped by underscores, and it
may be in base sixty, its places separated by colons.
-/

namespace Schematic.Yaml.Scalar

/-- The words for truth values, in lower case. -/
def truthWords : List (Text × Bool) :=
  [("yes", true), ("no", false), ("true", true), ("false", false), ("on", true), ("off", false)]

/-- The truth value of a word of any case. -/
def truth (t : Text) : Except ConversionError Bool :=
  match truthWords.lookup t.lower with
  | some b => .ok b
  | none => .error (.noTruth t.lower)

/-- A numeral in a base. -/
def integerIn (base : Nat) (t : Text) : Except ConversionError Int :=
  (Text.integer base t).mapError fun
    | .malformed => .notInteger base t
    | .tooManyDigits count => .tooManyDigits count

/-- The sign of a numeral that is not empty, and the text after it. -/
def signed (t : Text) : Except ConversionError (Bool × Text) :=
  if t.isEmpty then .error .emptyNumeral else .ok (Text.sign t)

/-- The number with given places in base sixty, the greatest place first. -/
def sixties (places : List Int) : Int := places.foldl (fun n d => n * 60 + d) 0

/-- A numeral without a sign. -/
def unsignedInteger (t : Text) : Except ConversionError Int :=
  match t with
  | [] => .error .emptyNumeral
  | [.char '0'] => .ok 0
  | .char '0' :: .char 'b' :: digits => integerIn 2 digits
  | .char '0' :: .char 'x' :: digits => integerIn 16 digits
  | .char '0' :: _ => integerIn 8 t
  | _ =>
    if t.contains (.char ':') then
      ((Text.splitAll (.char ':') t).mapM (integerIn 10)).map sixties
    else integerIn 10 t

/-- The integer that a content spells. -/
def integer (t : Text) : Except ConversionError Int := do
  let (negative, body) ← signed (t.without (.char '_'))
  let n ← unsignedInteger body
  return if negative then -n else n

/-- A numeral as a floating-point number. -/
def doubleOf (t : Text) : Except ConversionError Double :=
  match Text.double? t with
  | some x => .ok x
  | none => .error (.notNumber t)

/-- The rounded sum of places in base sixty, the least place first; `base` is the weight of the
first one. -/
def sixtiesFrom (base : Int) (sum : Double) : List Double → Except ConversionError Double
  | [] => .ok sum
  | x :: xs =>
    match Double.ofInt? base with
    | none => .error .tooLarge
    | some weight => sixtiesFrom (base * 60) (sum.add (x.mul weight)) xs

/-- The floating-point number that a content spells. -/
def double (t : Text) : Except ConversionError Double := do
  let (negative, body) ← signed (t.without (.char '_')).lower
  if body = Text.ofString ".inf" then return .infinite negative
  else if body = Text.ofString ".nan" then return .nan 1
  else
    let x ←
      if body.contains (.char ':') then do
        let places ← (Text.splitAll (.char ':') body).mapM doubleOf
        sixtiesFrom 1 .zero places.reverse
      else doubleOf body
    return if negative then x.neg else x

/-- The date or the time that a content spells. -/
def timestamp (t : Text) : Except ConversionError Value :=
  match Timestamp.read? t with
  | none => .error .noTimestamp
  | some s =>
    match s.resolve with
    | .ok (.inl d) => .ok (.date d)
    | .ok (.inr t) => .ok (.dateTime t)
    | .error e => .error (.calendar e)

/-- A conversion as a step of building values. -/
def converted (r : Except ConversionError Value) : Except Failure Value :=
  r.mapError Failure.unconverted

/-- The value of a content under the tag of a scalar, at a place; for other tags there is none. -/
def value? (tag : Tag) (content : Text) (start : Mark) : Option (Except Failure Value) :=
  match tag with
  | .null => some (.ok .null)
  | .bool => some (converted ((truth content).map Value.bool))
  | .int => some (converted ((integer content).map Value.int))
  | .float => some (converted ((double content).map Value.float))
  | .binary =>
    some ((Binary.decode content).map Value.bytes |>.mapError fun problem =>
      .refused (.at .values none none problem start))
  | .timestamp => some (converted (timestamp content))
  | .text => some (.ok (.text content))
  | _ => none

end Schematic.Yaml.Scalar
