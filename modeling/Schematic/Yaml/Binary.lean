import Schematic.Yaml.Error

/-!
# Binary scalars

Bytes in base 64. Characters outside of the alphabet are skipped, and padding ends the data as soon
as it fills up a group of four.
-/

namespace Schematic.Yaml.Binary

/-- The six bits of a character. -/
def sextet? (c : Char) : Option Nat :=
  if 'A' ≤ c ∧ c ≤ 'Z' then some (c.toNat - 'A'.toNat)
  else if 'a' ≤ c ∧ c ≤ 'z' then some (c.toNat - 'a'.toNat + 26)
  else if '0' ≤ c ∧ c ≤ '9' then some (c.toNat - '0'.toNat + 52)
  else if c = '+' then some 62
  else if c = '/' then some 63
  else none

/-- The bytes from a place in a group on: `place` counts the characters of the group, `rest` holds
their bits that make no byte yet, `pads` counts the padding in a row, and `count` the bytes so
far. -/
def decodeFrom (place rest pads count : Nat) : List Char → Except Problem (List UInt8)
  | [] =>
    if place = 0 then .ok []
    else if place = 1 then .error (.binaryLength (count / 3 * 4 + 1))
    else .error .binaryPadding
  | c :: cs =>
    if c = '=' then
      if 2 ≤ place then
        if 4 ≤ place + pads + 1 then .ok [] else decodeFrom place rest (pads + 1) count cs
      else decodeFrom place rest pads count cs
    else
      match sextet? c with
      | none => decodeFrom place rest pads count cs
      | some n =>
        if place = 0 then decodeFrom 1 n 0 count cs
        else if place = 1 then
          (decodeFrom 2 (n % 16) 0 (count + 1) cs).map (UInt8.ofNat (rest * 4 + n / 16) :: ·)
        else if place = 2 then
          (decodeFrom 3 (n % 4) 0 (count + 1) cs).map (UInt8.ofNat (rest * 16 + n / 4) :: ·)
        else (decodeFrom 0 0 0 (count + 1) cs).map (UInt8.ofNat (rest * 64 + n) :: ·)

/-- The character is not ASCII. -/
def isForeign (c : CodePoint) : Bool := 0x7f < c.value

/-- The bytes of a scalar's content. -/
def decode (t : Text) : Except Problem (List UInt8) :=
  match t.dropWhile fun c => !isForeign c with
  | [] => decodeFrom 0 0 0 0 ((t.chars?).getD [])
  | foreign =>
    .error (.binaryNotAscii (foreign.takeWhile isForeign) (t.length - foreign.length))

end Schematic.Yaml.Binary
