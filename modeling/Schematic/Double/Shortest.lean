import Schematic.Double

/-!
# Shortest decimals

The fewest decimal digits that read back as a given double and, of those, the ones nearest to it.

The reals that round to a double form an interval around it, which holds its ends exactly when the
mantissa is even. Of the decimals with a given number of digits only the two neighbours of the
double can be nearest; the first number of digits for which one of them lies in the interval wins.
-/

namespace Schematic

/-- The decimal `0.digits * 10 ^ point`, where the digits do not end in a zero. -/
structure Decimal where
  digits : List Char
  point : Int
  deriving DecidableEq

namespace Magnitude

/-- The reals that round to the magnitude, in quarters of a step of its exponent: four times the
mantissa is the middle. Below a power of two the doubles lie twice as close. -/
def lowQuarters (m : Magnitude) : Nat :=
  4 * m.mantissa - (if m.mantissa = 2 ^ 52 ∧ 0 < m.exponent then 1 else 2)

/-- The upper end of the reals that round to the magnitude, in quarters of a step. -/
def highQuarters (m : Magnitude) : Nat := 4 * m.mantissa + 2

/-- `n / d` rounds to the magnitude, where both sides count quarters of a step. -/
def holds (m : Magnitude) (n d : Nat) : Bool :=
  if m.mantissa % 2 = 0 then m.lowQuarters * d ≤ n && n ≤ m.highQuarters * d
  else m.lowQuarters * d < n && n < m.highQuarters * d

/-- The numerator of the magnitude as a fraction over `Double.stepsOfOne`. -/
def numerator (m : Magnitude) : Nat := m.steps

/-- How many zeros follow the point of `n / d` when it is less than one; `fuel` bounds the
search. -/
def leadingZeros (n d : Nat) : Nat → Nat
  | 0 => 0
  | fuel + 1 => if n * 10 < d then leadingZeros (n * 10) d fuel + 1 else 0

/-- The power of ten just above the magnitude: it is at least `10 ^ (point - 1)` and less than
`10 ^ point`. -/
def point (m : Magnitude) : Int :=
  let d := Double.stepsOfOne
  if d ≤ m.numerator then (Nat.toDigits 10 (m.numerator / d)).length
  else -(leadingZeros m.numerator d 400 : Int)

/-- The magnitude over `10 ^ power`, as a fraction. -/
def scaled (m : Magnitude) (power : Int) : Nat × Nat :=
  if 0 ≤ power then (m.numerator, Double.stepsOfOne * 10 ^ power.toNat)
  else (m.numerator * 10 ^ (-power).toNat, Double.stepsOfOne)

/-- The decimal `c * 10 ^ power` rounds to the magnitude. -/
def holdsDecimal (m : Magnitude) (c : Nat) (power : Int) : Bool :=
  let quarters := Double.stepsOfOne * 4
  if 0 ≤ power then m.holds (c * 10 ^ power.toNat * quarters) (2 ^ m.exponent)
  else m.holds (c * quarters) (2 ^ m.exponent * 10 ^ (-power).toNat)

/-- The multiple of `10 ^ power` that rounds to the magnitude and is nearest to it, if there is one;
a tie goes to the even multiple. -/
def nearest? (m : Magnitude) (power : Int) : Option Nat :=
  let (n, d) := m.scaled power
  let below := n / d
  let r := n % d
  match m.holdsDecimal below power, m.holdsDecimal (below + 1) power with
  | false, false => none
  | true, false => some below
  | false, true => some (below + 1)
  | true, true =>
    if 2 * r < d then some below
    else if 2 * r > d then some (below + 1)
    else some (below + below % 2)

/-- Search the numbers of digits from `count` on; `fuel` bounds the search. -/
def shortestFrom (m : Magnitude) (count : Nat) : Nat → Nat × Int
  | 0 => (m.numerator / Double.stepsOfOne, 0)
  | fuel + 1 =>
    let power := m.point - count
    match m.nearest? power with
    | some c => (c, power)
    | none => shortestFrom m (count + 1) fuel

/-- The shortest decimal of a magnitude; zero has the single digit `0` before the point. -/
def shortest (m : Magnitude) : Decimal :=
  if m.mantissa = 0 then ⟨['0'], 1⟩
  else
    let (c, power) := m.shortestFrom 1 17
    let written := Nat.toDigits 10 c
    let trimmed := (written.reverse.dropWhile (· = '0')).reverse
    ⟨trimmed, written.length + power⟩

end Magnitude

end Schematic
