import Schematic.Double
import Schematic.Text.Blank
import Schematic.Text.Digit

/-!
# Numerals

Reading a text as an integer in a base, or as a floating-point number. Blanks around the numeral are
let pass, and the digits may be those of any script.
-/

namespace Schematic.Text

/-- Why a text is no integer. -/
inductive IntegerError where
  | malformed
  | tooManyDigits (count : Nat)
  deriving DecidableEq

/-- The longest numeral that is read in a base that is no power of two, in digits. -/
def maxIntegerDigits : Nat := 4300

def isNumeralBlank (c : CodePoint) : Bool :=
  if c.value < 0x7f then c.isOneOf "\t\n\x0b\x0c\r " else c.isBlank

/-- The text without blanks around it. -/
def trimNumeral (t : Text) : Text :=
  ((t.dropWhile isNumeralBlank).reverse.dropWhile isNumeralBlank).reverse

/-- The value of a digit of any script, or of a letter that is a hexadecimal digit. -/
def digitValue? (c : CodePoint) : Option Nat := c.digit?.or c.hexDigit?

/-- A sign at the start of a text: whether it is a minus, and the text after it. -/
def sign : Text → Bool × Text
  | .char '-' :: rest => (true, rest)
  | .char '+' :: rest => (false, rest)
  | t => (false, t)

/-- The text after the letter that announces a base, if it is there. -/
def afterBase (base : Nat) (t : Text) : Text :=
  match t with
  | .char '0' :: c :: rest =>
    if (base = 16 ∧ c.isOneOf "xX") ∨ (base = 8 ∧ c.isOneOf "oO") ∨ (base = 2 ∧ c.isOneOf "bB") then
      rest
    else t
  | _ => t

/-- The number that digits of a base spell; each of them has to be below the base. -/
def natural? (base : Nat) (digits : Text) : Option Nat :=
  digits.foldlM (fun n c => do
    let d ← digitValue? c
    if d < base then some (n * base + d) else none) 0

def integer (base : Nat) (t : Text) : Except IntegerError Int :=
  let (negative, body) := sign (trimNumeral t)
  let digits := afterBase base body
  if digits.isEmpty then .error .malformed
  else if base = 10 ∧ maxIntegerDigits < (digits.takeWhile fun c => c.digit?.isSome).length then
    .error (.tooManyDigits (digits.takeWhile fun c => c.digit?.isSome).length)
  else
    match natural? base digits with
    | none => .error .malformed
    | some n => .ok (if negative then -n else n)

/-- The text in ASCII lower case, where it is a letter. -/
def asciiLower (t : Text) : Text :=
  t.map fun
    | .char c => .char c.toLower
    | c => c

/-- The exponent that takes up a whole text; there is none in an empty text. -/
def exponent? (t : Text) : Option Int :=
  match t with
  | [] => some 0
  | c :: rest =>
    if c.isOneOf "eE" then
      let (negative, digits) := sign rest
      if digits.isEmpty then none
      else (natural? 10 digits).map fun n => if negative then -(n : Int) else n
    else none

def isAnyDigit (c : CodePoint) : Bool := c.digit?.isSome

/-- A number without a sign. -/
def unsignedDouble? (negative : Bool) (t : Text) : Option Double :=
  let word := asciiLower t
  if word = ofString "inf" ∨ word = ofString "infinity" then some (.infinite negative)
  else if word = ofString "nan" then some (.nan 2)
  else
    let whole := t.takeWhile isAnyDigit
    let afterWhole := t.dropWhile isAnyDigit
    let (fraction, rest) : Text × Text :=
      match afterWhole with
      | .char '.' :: rest => (rest.takeWhile isAnyDigit, rest.dropWhile isAnyDigit)
      | _ => ([], afterWhole)
    if whole.isEmpty && fraction.isEmpty then none
    else do
      let digits ← natural? 10 (whole ++ fraction)
      let exponent ← exponent? rest
      return Double.ofDecimal negative digits (exponent - fraction.length)

/-- Read a text as a floating-point number. -/
def double? (t : Text) : Option Double :=
  let (negative, body) := sign (trimNumeral t)
  unsignedDouble? negative body

end Schematic.Text
