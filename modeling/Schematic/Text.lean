import Schematic.Power

/-!
# Text

A document, a key or a message is a list of code points. A code point is a character, or one half
of a surrogate pair that stands alone: an escape in a document can name such a half, so the type has
to hold it, and it takes part in comparison, ordering and writing like any other code point.

String literals of the program become texts by a coercion.
-/

namespace Schematic

/-- A code point: a character, or one half of a surrogate pair that stands alone. -/
inductive CodePoint where
  | char (c : Char)
  | lone (half : Fin 0x800)
  deriving DecidableEq

/-- A list of code points. -/
abbrev Text := List CodePoint

namespace CodePoint

/-- The number of a code point; the halves of surrogate pairs start at `0xD800`. -/
def value : CodePoint → Nat
  | .char c => c.toNat
  | .lone half => 0xD800 + half.val

/-- The code point with a number, if the number is below `0x110000`. -/
def ofNat? (n : Nat) : Option CodePoint :=
  if hn : n.isValidChar then some (.char (Char.ofNatAux n hn))
  else if hs : 0xD800 ≤ n ∧ n < 0xE000 then some (.lone ⟨n - 0xD800, by omega⟩)
  else none

/-- The code point is a character of the inclusive range from `low` to `high`. -/
def within (low high : Char) : CodePoint → Bool
  | .char c => low ≤ c && c ≤ high
  | .lone _ => false

def isDigit : CodePoint → Bool := within '0' '9'

/-- The value of an ASCII hexadecimal digit, of either case. -/
def hexDigit? : CodePoint → Option Nat
  | .char c =>
    if '0' ≤ c && c ≤ '9' then some (c.toNat - '0'.toNat)
    else if 'a' ≤ c && c ≤ 'f' then some (c.toNat - 'a'.toNat + 10)
    else if 'A' ≤ c && c ≤ 'F' then some (c.toNat - 'A'.toNat + 10)
    else none
  | .lone _ => none

/-- The code point is one of the characters of a string. -/
def isOneOf (cs : String) : CodePoint → Bool
  | .char c => cs.toList.contains c
  | .lone _ => false

end CodePoint

namespace Text

/-- The text of a string. -/
def ofString (s : String) : Text := s.toList.map .char

instance : Coe String Text := ⟨ofString⟩

def ofChars (cs : List Char) : Text := cs.map .char

/-- The characters of a text in which no half of a surrogate pair stands alone. -/
def chars? (t : Text) : Option (List Char) :=
  t.mapM fun
    | .char c => some c
    | .lone _ => none

/-- The parts joined, with a separator between neighbours. -/
def join (separator : Text) (parts : List Text) : Text :=
  (parts.intersperse separator).flatten

/-- The text before and after the first occurrence of a code point. -/
def splitFirst? (c : CodePoint) (t : Text) : Option (Text × Text) :=
  match t.dropWhile (· != c) with
  | [] => none
  | _ :: after => some (t.takeWhile (· != c), after)

/-- The pieces between the occurrences of a code point; there is always one piece. -/
def splitAll (c : CodePoint) : Text → List Text
  | [] => [[]]
  | d :: rest =>
    if d = c then [] :: splitAll c rest
    else
      match splitAll c rest with
      | [] => [[d]]
      | piece :: pieces => (d :: piece) :: pieces

/-- The text with every occurrence of a code point left out. -/
def without (c : CodePoint) (t : Text) : Text := t.filter (· != c)

/-- The text ends here, or the first text starts with the second. -/
def startsWith (t start : Text) : Bool := start.isPrefixOf t

/-- Texts are ordered code point by code point, a proper beginning before its continuations. -/
def le : Text → Text → Bool
  | [], _ => true
  | _ :: _, [] => false
  | c :: t, d :: u => c.value < d.value || (c.value == d.value && le t u)

/-- The decimal numeral of a natural number. -/
def ofNat (n : Nat) : Text := ofChars (Nat.toDigits 10 n)

/-- The decimal numeral of an integer, with a minus sign when it is negative. -/
def ofInt : Int → Text
  | .ofNat n => ofNat n
  | .negSucc n => .char '-' :: ofNat (n + 1)

/-- The hexadecimal numeral of a number, in lower case and with at least `width` digits. -/
def hex (width n : Nat) : Text :=
  let digits := Nat.toDigits 16 n
  ofChars (List.replicate (width - digits.length) '0' ++ digits)

/-- The hexadecimal numeral of a number, in upper case and with at least `width` digits. -/
def hexUpper (width n : Nat) : Text :=
  let digits := (Nat.toDigits 16 n).map Char.toUpper
  ofChars (List.replicate (width - digits.length) '0' ++ digits)

/-- The decimal numeral of a number with at least `width` digits. -/
def padded (width n : Nat) : Text :=
  let digits := Nat.toDigits 10 n
  ofChars (List.replicate (width - digits.length) '0' ++ digits)

def spaces (n : Nat) : Text := List.replicate n (.char ' ')

end Text

end Schematic
