import Schematic.Double.Shortest
import Schematic.Text

/-!
# Layouts of numbers

How the shortest decimal of a double is laid out as text: with a point inside the digits while the
power of ten is moderate, and with an exponent outside of that range. Each format that holds numbers
fixes the range, the form of the exponent and the words for what is not finite.
-/

namespace Schematic.Double

/-- The choices of a format of numbers. -/
structure Layout where
  /-- The least `point` of a decimal that is written without an exponent. -/
  leastPoint : Int
  /-- The greatest `point` of a decimal that is written without an exponent. -/
  greatestPoint : Int
  /-- The least number of digits of an exponent; a positive one has a plus sign. -/
  exponentWidth : Nat
  /-- A single digit before an exponent is followed by `.0`. -/
  pointBeforeExponent : Bool
  infinity : Text
  negativeInfinity : Text
  nan : Text

namespace Layout

/-- The digits with the point inside them, or zeros around them. -/
def positional (d : Decimal) : Text :=
  let n : Int := d.digits.length
  if d.point ≤ 0 then
    "0." ++ Text.ofChars (List.replicate (-d.point).toNat '0' ++ d.digits)
  else if n ≤ d.point then
    Text.ofChars (d.digits ++ List.replicate (d.point - n).toNat '0') ++ ".0"
  else
    Text.ofChars (d.digits.take d.point.toNat) ++ "." ++ Text.ofChars (d.digits.drop d.point.toNat)

def exponent (l : Layout) (e : Int) : Text :=
  "e" ++ (if e < 0 then "-" else "+") ++ Text.padded l.exponentWidth e.natAbs

/-- One digit, the point, the other digits and the exponent. -/
def scientific (l : Layout) (d : Decimal) : Text :=
  let fraction : Text :=
    match d.digits.drop 1 with
    | [] => if l.pointBeforeExponent then ".0" else []
    | rest => "." ++ Text.ofChars rest
  Text.ofChars (d.digits.take 1) ++ fraction ++ l.exponent (d.point - 1)

/-- The text of a double. -/
def text (l : Layout) : Double → Text
  | .nan _ => l.nan
  | .infinite negative => if negative then l.negativeInfinity else l.infinity
  | .finite negative m =>
    let d := m.shortest
    let sign : Text := if negative then "-" else []
    if l.leastPoint ≤ d.point ∧ d.point ≤ l.greatestPoint then sign ++ positional d
    else sign ++ l.scientific d

end Layout

end Schematic.Double
