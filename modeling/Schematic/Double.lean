import Schematic.Power

/-!
# Doubles

Floating-point numbers of 64 bits. A finite magnitude is `mantissa * 2 ^ exponent` steps of the
least positive double, `2 ^ (-1074)`; the fields of `Magnitude` make each value have one form, so
that equality of the data is equality of the numbers, up to the sign of zero.

A NaN keeps a payload, which tells where it comes from: two of them are the same datum only if their
payloads agree.
-/

namespace Schematic

/-- The magnitude of a finite double, counted in steps of `2 ^ (-1074)`. -/
structure Magnitude where
  mantissa : Nat
  exponent : Nat
  mantissa_lt : mantissa < 2 ^ 53
  exponent_le : exponent ≤ 2045
  normal : exponent = 0 ∨ 2 ^ 52 ≤ mantissa
  deriving DecidableEq

/-- A floating-point number of 64 bits. -/
inductive Double where
  | finite (negative : Bool) (magnitude : Magnitude)
  | infinite (negative : Bool)
  | nan (payload : Nat)
  deriving DecidableEq

namespace Magnitude

/-- How many steps of `2 ^ (-1074)` make the magnitude. -/
def steps (m : Magnitude) : Nat := m.mantissa * 2 ^ m.exponent

/-- No step at all. -/
def zero : Magnitude := ⟨0, 0, by decide, by decide, .inl rfl⟩

end Magnitude

/-- The quotient of two natural numbers, rounded to nearest; a half goes to the even neighbour. -/
def roundedQuotient (n d : Nat) : Nat :=
  let q := n / d
  let r := n % d
  if 2 * r < d then q else if 2 * r > d then q + 1 else q + q % 2

namespace Double

/-- How many steps make the number one. -/
@[irreducible]
def stepsOfOne : Nat := 2 ^ 1074

def zero : Double := .finite false .zero

/-- The double with a mantissa and an exponent that are in normal form, or else an infinity. -/
def ofParts (negative : Bool) (mantissa exponent : Nat) : Double :=
  if h : mantissa < 2 ^ 53 ∧ exponent ≤ 2045 ∧ (exponent = 0 ∨ 2 ^ 52 ≤ mantissa) then
    .finite negative ⟨mantissa, exponent, h.1, h.2.1, h.2.2⟩
  else .infinite negative

/-- The double nearest to `n / d` steps, of a given sign; a tie goes to the even mantissa, and what
is past the largest double is an infinity. -/
def ofSteps (negative : Bool) (n d : Nat) : Double :=
  let exponent := (Nat.log2 (n / d) + 1) - 53
  let mantissa := roundedQuotient n (d * 2 ^ exponent)
  if mantissa = 2 ^ 53 then ofParts negative (2 ^ 52) (exponent + 1)
  else ofParts negative mantissa exponent

/-- The double nearest to `n / d`, of a given sign. -/
def ofRatio (negative : Bool) (n d : Nat) : Double := ofSteps negative (n * stepsOfOne) d

/-- The double nearest to `digits * 10 ^ power`, of a given sign. Numbers that are out of range
whatever their digits are not computed. -/
def ofDecimal (negative : Bool) (digits : Nat) (power : Int) : Double :=
  let places : Int := (Nat.toDigits 10 digits).length + power
  if digits = 0 ∨ places < -330 then .finite negative .zero
  else if places > 330 then .infinite negative
  else if 0 ≤ power then ofRatio negative (digits * 10 ^ power.toNat) 1
  else ofRatio negative digits (10 ^ (-power).toNat)

/-- The double nearest to an integer; there is none for an integer past the largest double. -/
def ofInt? (n : Int) : Option Double :=
  match ofRatio (n < 0) n.natAbs 1 with
  | .finite negative m => some (.finite negative m)
  | _ => none

/-- The number in steps of `2 ^ (-1074)`, when it is finite. -/
def steps? : Double → Option Int
  | .finite negative m => some (if negative then -(m.steps : Int) else m.steps)
  | _ => none

/-- The number is neither infinite nor a NaN. -/
def isFinite (x : Double) : Bool := x.steps?.isSome

/-- The number with its sign turned. -/
def neg : Double → Double
  | .finite negative m => .finite (!negative) m
  | .infinite negative => .infinite (!negative)
  | .nan payload => .nan payload

/-- The double nearest to a signed number of steps over a scale; a zero is positive. -/
def ofSignedSteps (n : Int) (d : Nat) : Double := ofSteps (n < 0) n.natAbs d

/-- The rounded sum of two numbers. -/
def add : Double → Double → Double
  | .nan p, _ => .nan p
  | _, .nan p => .nan p
  | .infinite a, .infinite b => if a = b then .infinite a else .nan 2
  | .infinite a, _ => .infinite a
  | _, .infinite b => .infinite b
  | .finite a m, .finite b n =>
    if m.steps = 0 ∧ n.steps = 0 then .finite (a && b) .zero
    else
      let signed (negative : Bool) (k : Magnitude) : Int := if negative then -k.steps else k.steps
      ofSignedSteps (signed a m + signed b n) 1

/-- The rounded product of two numbers. -/
def mul : Double → Double → Double
  | .nan p, _ => .nan p
  | _, .nan p => .nan p
  | .infinite a, .infinite b => .infinite (a != b)
  | .infinite a, .finite b n => if n.steps = 0 then .nan 2 else .infinite (a != b)
  | .finite a m, .infinite b => if m.steps = 0 then .nan 2 else .infinite (a != b)
  | .finite a m, .finite b n => ofSteps (a != b) (m.steps * n.steps) stepsOfOne

/-- The two doubles are the same number, or NaNs of one payload. -/
def same : Double → Double → Bool
  | .finite a m, .finite b n => m = n && (a == b || m.steps = 0)
  | .infinite a, .infinite b => a == b
  | .nan p, .nan q => p == q
  | _, _ => false

def isInt (x : Double) (n : Int) : Bool := x.steps? == some (n * stepsOfOne)

end Double

end Schematic
