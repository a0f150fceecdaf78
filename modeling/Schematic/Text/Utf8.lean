import Schematic.Text

/-!
# UTF-8

Writing a text as bytes and reading it back. A half of a surrogate pair has no bytes. Reading stops
at the first bytes that no character has, and says which they are and why.
-/

namespace Schematic.Utf8

/-- Why bytes are no UTF-8. -/
inductive Reason where
  | invalidStart
  | invalidContinuation
  | unexpectedEnd
  deriving DecidableEq

def Reason.text : Reason → Text
  | .invalidStart => "invalid start byte"
  | .invalidContinuation => "invalid continuation byte"
  | .unexpectedEnd => "unexpected end of data"

/-- The first bytes that cannot be read: how many, where, and the first of them. -/
structure Error where
  byte : UInt8
  start : Nat
  length : Nat
  reason : Reason
  deriving DecidableEq

/-- The bytes at fault, in words. -/
def Error.place (e : Error) : Text :=
  if e.length = 1 then
    "byte 0x" ++ Text.hex 2 e.byte.toNat ++ " in position " ++ Text.ofNat e.start
  else "bytes in position " ++ Text.ofNat e.start ++ "-" ++ Text.ofNat (e.start + e.length - 1)

def Error.message (e : Error) : Text :=
  "'utf-8' codec can't decode " ++ e.place ++ ": " ++ e.reason.text

/-! ### Writing -/

def encodeChar (c : Char) : List UInt8 :=
  let n := c.toNat
  let tail (shift : Nat) : UInt8 := UInt8.ofNat (0x80 + n / 2 ^ shift % 64)
  if n < 0x80 then [UInt8.ofNat n]
  else if n < 0x800 then [UInt8.ofNat (0xc0 + n / 64), tail 0]
  else if n < 0x10000 then [UInt8.ofNat (0xe0 + n / 4096), tail 6, tail 0]
  else [UInt8.ofNat (0xf0 + n / 262144), tail 12, tail 6, tail 0]

def encode (cs : List Char) : List UInt8 := cs.flatMap encodeChar

/-- The first code points without bytes: where they start, how many they are, and the first of
them. -/
structure Unwritable where
  first : CodePoint
  start : Nat
  length : Nat
  deriving DecidableEq

/-- The message of code points without bytes. -/
def Unwritable.message (u : Unwritable) : Text :=
  let place : Text :=
    if u.length = 1 then
      "character '\\u" ++ Text.hex 4 u.first.value ++ "' in position " ++ Text.ofNat u.start
    else
      "characters in position " ++ Text.ofNat u.start ++ "-" ++ Text.ofNat (u.start + u.length - 1)
  "'utf-8' codec can't encode " ++ place ++ ": surrogates not allowed"

/-- The first run of halves of surrogate pairs in a text. -/
def unwritable? (t : Text) : Option Unwritable :=
  let isLone : CodePoint → Bool
    | .char _ => false
    | .lone _ => true
  match t.dropWhile (!isLone ·) with
  | [] => none
  | c :: rest =>
    some ⟨c, (t.takeWhile (!isLone ·)).length, ((c :: rest).takeWhile isLone).length⟩

def encodeText (t : Text) : Except Unwritable (List UInt8) :=
  match unwritable? t with
  | some u => .error u
  | none => .ok (encode ((t.chars?).getD []))

/-! ### Reading -/

/-- The byte continues a character. -/
def isTail (b : UInt8) : Bool := 0x80 ≤ b && b < 0xc0

/-- The byte may follow a start byte of three or four bytes: four start bytes narrow the range. -/
def isSecond (start b : UInt8) : Bool :=
  isTail b && (start != 0xe0 || 0xa0 ≤ b) && (start != 0xed || b < 0xa0)
    && (start != 0xf0 || 0x90 ≤ b) && (start != 0xf4 || b < 0x90)

/-- The character of a start byte, of which the `bits` low bits count, and of its tail bytes. -/
def assemble (bits : Nat) (start : UInt8) (tails : List UInt8) : CodePoint :=
  let n := tails.foldl (fun n b => n * 64 + b.toNat % 64) (start.toNat % 2 ^ bits)
  .char (Char.ofNat n)

/-- Read the bytes from a position on. -/
def decodeFrom (position : Nat) : List UInt8 → Except Error Text
  | [] => .ok []
  | a :: rest =>
    let fail (length : Nat) (reason : Reason) : Except Error Text :=
      .error ⟨a, position, length, reason⟩
    if a < 0x80 then (decodeFrom (position + 1) rest).map (.char (Char.ofNat a.toNat) :: ·)
    else if a < 0xc2 ∨ 0xf5 ≤ a then fail 1 .invalidStart
    else if a < 0xe0 then
      match rest with
      | [] => fail 1 .unexpectedEnd
      | b :: rest =>
        if isTail b then (decodeFrom (position + 2) rest).map (assemble 5 a [b] :: ·)
        else fail 1 .invalidContinuation
    else if a < 0xf0 then
      match rest with
      | [] => fail 1 .unexpectedEnd
      | [b] => if isSecond a b then fail 2 .unexpectedEnd else fail 1 .invalidContinuation
      | b :: c :: rest =>
        if !isSecond a b then fail 1 .invalidContinuation
        else if !isTail c then fail 2 .invalidContinuation
        else (decodeFrom (position + 3) rest).map (assemble 4 a [b, c] :: ·)
    else
      match rest with
      | [] => fail 1 .unexpectedEnd
      | [b] => if isSecond a b then fail 2 .unexpectedEnd else fail 1 .invalidContinuation
      | [b, c] =>
        if !isSecond a b then fail 1 .invalidContinuation
        else if !isTail c then fail 2 .invalidContinuation
        else fail 3 .unexpectedEnd
      | b :: c :: d :: rest =>
        if !isSecond a b then fail 1 .invalidContinuation
        else if !isTail c then fail 2 .invalidContinuation
        else if !isTail d then fail 3 .invalidContinuation
        else (decodeFrom (position + 4) rest).map (assemble 3 a [b, c, d] :: ·)

/-- The text of some bytes, or the first fault in them. -/
def decode (bytes : List UInt8) : Except Error Text := decodeFrom 0 bytes

/-- The text of some bytes with a replacement character in the place of each fault; `fuel` bounds
their number. -/
def decodeLossy : Nat → List UInt8 → Text
  | 0, _ => []
  | fuel + 1, bytes =>
    match decode bytes with
    | .ok t => t
    | .error e =>
      ((decode (bytes.take e.start)).toOption).getD [] ++
        .char '\uFFFD' :: decodeLossy fuel (bytes.drop (e.start + e.length))

end Schematic.Utf8
