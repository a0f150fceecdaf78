import Schematic.Json.Numeral

/-!
# Reading JSON text

The reader takes the grammar of JSON and a little more: the words `NaN`, `Infinity` and `-Infinity`
are numbers, an escape may name half of a surrogate pair, and an object may repeat a name, in which
case the last value counts. A text that is refused is refused at a position.
-/

namespace Schematic.Json

/-- Why a text is not read. -/
inductive ReadError where
  /-- The text breaks the grammar at a position. -/
  | malformed (position : Nat)
  /-- A whole number has too many digits. -/
  | tooManyDigits (count : Nat)
  deriving DecidableEq

/-- What stops the reader: the text from the fault on, or a number that is too long. -/
inductive Stop where
  | malformed (rest : Text)
  | tooManyDigits (count : Nat)

/-- The code point is a blank between the parts of a text. -/
def isSpace (c : CodePoint) : Bool := c.isOneOf " \t\n\r"

/-- The text from its first part on. -/
def skipSpace (t : Text) : Text := t.dropWhile isSpace

/-! ### Texts -/

/-- What a letter after a backslash stands for, apart from `u`. -/
def simpleEscape? : CodePoint → Option CodePoint
  | .char '"' => some (.char '"')
  | .char '\\' => some (.char '\\')
  | .char '/' => some (.char '/')
  | .char 'b' => some (.char '\x08')
  | .char 'f' => some (.char '\x0c')
  | .char 'n' => some (.char '\n')
  | .char 'r' => some (.char '\r')
  | .char 't' => some (.char '\t')
  | _ => none

/-- The number of the first four hexadecimal digits of a text, if it has them. -/
def hex4? : Text → Option Nat
  | a :: b :: c :: d :: _ => do
    return ((← a.hexDigit?) * 16 + (← b.hexDigit?)) * 256 + (← c.hexDigit?) * 16 + (← d.hexDigit?)
  | _ => none

/-- The number is the first half of a surrogate pair. -/
def isHighHalf (n : Nat) : Bool := 0xD800 ≤ n && n < 0xDC00

/-- The number is the second half of a surrogate pair. -/
def isLowHalf (n : Nat) : Bool := 0xDC00 ≤ n && n < 0xE000

/-- The code point of a surrogate pair. -/
def joinHalves (high low : Nat) : Nat := 0x10000 + (high - 0xD800) * 0x400 + (low - 0xDC00)

/-- A code point by its number; numbers that are too great do not come up. -/
def point (n : Nat) : CodePoint := (CodePoint.ofNat? n).getD (.char '\uFFFD')

/-- The code point of an escape by number and the count of code points that spell it. `digits` is
the text after the `u` at the start of `rest`. A first half takes the second half with it when an
escape of one follows. At least one more code point has to follow what is read. -/
def numericEscape (rest digits : Text) : Except Stop (CodePoint × Nat) :=
  if (digits.drop 4).isEmpty then .error (.malformed rest)
  else
    match hex4? digits with
    | none => .error (.malformed rest)
    | some n =>
      match digits.drop 4 with
      | .char '\\' :: .char 'u' :: more =>
        if isHighHalf n && !(more.drop 4).isEmpty then
          match hex4? more with
          | none => .error (.malformed (.char 'u' :: more))
          | some m => .ok (if isLowHalf m then (point (joinHalves n m), 11) else (point n, 5))
        else .ok (point n, 5)
      | _ => .ok (point n, 5)

/-- The code point of an escape and the count of code points that spell it, after the backslash.
`start` is the text from the opening quote on, and `here` the text from the backslash on. -/
def escape (start here : Text) : Text → Except Stop (CodePoint × Nat)
  | [] => .error (.malformed start)
  | .char 'u' :: digits => numericEscape (.char 'u' :: digits) digits
  | c :: _ =>
    match simpleEscape? c with
    | some d => .ok (d, 1)
    | none => .error (.malformed here)

/-- A text up to its closing quote, after `skip` code points of an escape that is read already. -/
def textBody (start : Text) : Nat → Text → Except Stop (Text × Text)
  | _, [] => .error (.malformed start)
  | skip + 1, _ :: rest => textBody start skip rest
  | 0, .char '"' :: rest => .ok ([], rest)
  | 0, .char '\\' :: rest => do
    let (c, count) ← escape start (.char '\\' :: rest) rest
    let (t, after) ← textBody start count rest
    return (c :: t, after)
  | 0, c :: rest =>
    if c.value < 0x20 then .error (.malformed (c :: rest))
    else do
      let (t, after) ← textBody start 0 rest
      return (c :: t, after)

/-! ### Numbers -/

/-- The fraction at the start of a text: a point with at least one digit. -/
def fraction : Text → Option Text × Text
  | .char '.' :: rest =>
    match rest.takeWhile CodePoint.isDigit with
    | [] => (none, .char '.' :: rest)
    | digits => (some digits, rest.dropWhile CodePoint.isDigit)
  | t => (none, t)

/-- The exponent at the start of a text: an `e`, perhaps a sign, and at least one digit. -/
def exponent : Text → Option Int × Text
  | c :: rest =>
    if c.isOneOf "eE" then
      let (negative, digits) := exponentSign rest
      match digits.takeWhile CodePoint.isDigit with
      | [] => (none, c :: rest)
      | spelled => (some (exponentValue negative spelled), digits.dropWhile CodePoint.isDigit)
    else (none, c :: rest)
  | [] => (none, [])

/-- The whole part at the start of a text: a zero, or digits that do not start with one. -/
def whole? : Text → Option (Text × Text)
  | .char '0' :: rest => some ([.char '0'], rest)
  | c :: rest =>
    if c.isDigit then
      some (c :: rest.takeWhile CodePoint.isDigit, rest.dropWhile CodePoint.isDigit)
    else none
  | [] => none

def numeral? (t : Text) : Option (Numeral × Text) :=
  let (negative, body) : Bool × Text :=
    match t with
    | .char '-' :: rest => (true, rest)
    | _ => (false, t)
  (whole? body).map fun (digits, afterWhole) =>
    let (fraction, afterFraction) := fraction afterWhole
    let (exponent, rest) := exponent afterFraction
    (⟨negative, digits, fraction, exponent⟩, rest)

def number (t : Text) : Except Stop (Json × Text) :=
  match numeral? t with
  | none => .error (.malformed t)
  | some (n, rest) =>
    if n.isWhole && maxDigits < n.whole.length then .error (.tooManyDigits n.whole.length)
    else .ok (n.value, rest)

/-! ### Values -/

def words : List (Text × Json) :=
  [("null", .null), ("true", .bool true), ("false", .bool false), ("NaN", .float (.nan 0)),
    ("Infinity", .float (.infinite false)), ("-Infinity", .float (.infinite true))]

def wordOrNumber (t : Text) : Except Stop (Json × Text) :=
  match words.find? fun w => t.startsWith w.1 with
  | some (w, j) => .ok (j, t.drop w.length)
  | none => number t

mutual

/-- The value at the start of a text; `fuel` bounds the nesting and the number of items. -/
def value : Nat → Text → Except Stop (Json × Text)
  | 0, t => .error (.malformed t)
  | fuel + 1, t =>
    match t with
    | .char '"' :: rest => do
      let (s, after) ← textBody t 0 rest
      return (.text s, after)
    | .char '[' :: rest =>
      match skipSpace rest with
      | .char ']' :: after => .ok (.array [], after)
      | inner => do
        let (items, after) ← items fuel inner
        return (.array items, after)
    | .char '{' :: rest =>
      match skipSpace rest with
      | .char '}' :: after => .ok (.object [], after)
      | inner => do
        let (entries, after) ← members fuel inner
        return (.object (bindAll entries), after)
    | _ => wordOrNumber t

/-- The items of an array from the next one on, and its closing bracket. -/
def items : Nat → Text → Except Stop (List Json × Text)
  | 0, t => .error (.malformed t)
  | fuel + 1, t => do
    let (item, after) ← value fuel t
    match skipSpace after with
    | .char ']' :: rest => return ([item], rest)
    | .char ',' :: rest =>
      let (more, rest) ← items fuel (skipSpace rest)
      return (item :: more, rest)
    | rest => throw (.malformed rest)

/-- The entries of an object from the next one on, and its closing brace. -/
def members : Nat → Text → Except Stop (List (Text × Json) × Text)
  | 0, t => .error (.malformed t)
  | fuel + 1, t =>
    match t with
    | .char '"' :: inner => do
      let (name, after) ← textBody t 0 inner
      match skipSpace after with
      | .char ':' :: rest =>
        let (item, after) ← value fuel (skipSpace rest)
        match skipSpace after with
        | .char '}' :: rest => return ([(name, item)], rest)
        | .char ',' :: rest =>
          let (more, rest) ← members fuel (skipSpace rest)
          return ((name, item) :: more, rest)
        | rest => throw (.malformed rest)
      | rest => throw (.malformed rest)
    | _ => .error (.malformed t)

end

/-- The value that a whole text spells, with blanks around it. -/
def document (t : Text) : Except Stop Json := do
  if t.head? = some (.char '\uFEFF') then throw (.malformed t)
  let (j, after) ← value (t.length + 1) (skipSpace t)
  match skipSpace after with
  | [] => return j
  | rest => throw (.malformed rest)

/-- Read a text as plain data. -/
def read (t : Text) : Except ReadError Json :=
  (document t).mapError fun
    | .malformed rest => .malformed (t.length - rest.length)
    | .tooManyDigits count => .tooManyDigits count

end Schematic.Json
