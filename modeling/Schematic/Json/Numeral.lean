import Schematic.Json

/-!
# Numerals of JSON

A numeral is a sign, a whole part without superfluous zeros, an optional fraction and an optional
exponent. Without fraction and exponent it is an integer, otherwise a floating-point number.
-/

namespace Schematic.Json

/-- The longest whole numeral that is read, in digits. -/
def maxDigits : Nat := 4300

/-- The parts of a numeral; the exponent is kept as a number. -/
structure Numeral where
  negative : Bool
  whole : Text
  fraction : Option Text
  exponent : Option Int

/-- The number that ASCII digits spell. -/
def digitsValue (digits : Text) : Nat :=
  digits.foldl (fun n d => n * 10 + d.hexDigit?.getD 0) 0

namespace Numeral

/-- The numeral has neither fraction nor exponent. -/
def isWhole (n : Numeral) : Bool := n.fraction.isNone && n.exponent.isNone

/-- The number of a numeral. -/
def value (n : Numeral) : Json :=
  if n.isWhole then
    .int (if n.negative then -digitsValue n.whole else digitsValue n.whole)
  else
    let fraction := n.fraction.getD []
    .float (Double.ofDecimal n.negative (digitsValue (n.whole ++ fraction))
      (n.exponent.getD 0 - fraction.length))

end Numeral

/-- A sign in front of an exponent: whether it is a minus, and what follows. -/
def exponentSign : Text → Bool × Text
  | .char '-' :: rest => (true, rest)
  | .char '+' :: rest => (false, rest)
  | rest => (false, rest)

def exponentValue (negative : Bool) (digits : Text) : Int :=
  if negative then -digitsValue digits else digitsValue digits

end Schematic.Json
