import Schematic.Json.Reader
import Schematic.Text.Utf8

/-!
# Reading JSON text strictly

A second reader, which tells what is wrong and where. It wants the second half after every first
half of a surrogate pair, bounds the nesting, and counts columns in bytes of UTF-8. The words for
numbers that are not finite are accepted as by the other reader.
-/

namespace Schematic.Json.Strict

/-- What is wrong with a text. -/
inductive Reason where
  | endInArray
  | endInObject
  | endInText
  | endInValue
  | expectedColon
  | expectedArrayEnd
  | expectedObjectEnd
  | expectedWord
  | expectedValue
  | invalidEscape
  | invalidNumber
  | numberTooLong
  | controlCharacter
  | expectedName
  | loneHalf
  | unfinishedPair
  | trailingComma
  | trailingText
  | tooDeep
  deriving DecidableEq

def Reason.text : Reason → Text
  | .endInArray => "EOF while parsing a list"
  | .endInObject => "EOF while parsing an object"
  | .endInText => "EOF while parsing a string"
  | .endInValue => "EOF while parsing a value"
  | .expectedColon => "expected `:`"
  | .expectedArrayEnd => "expected `,` or `]`"
  | .expectedObjectEnd => "expected `,` or `\x7d`"
  | .expectedWord => "expected ident"
  | .expectedValue => "expected value"
  | .invalidEscape => "invalid escape"
  | .invalidNumber => "invalid number"
  | .numberTooLong => "number out of range"
  | .controlCharacter => "control character (\\u0000-\\u001F) found while parsing a string"
  | .expectedName => "key must be a string"
  | .loneHalf => "lone leading surrogate in hex escape"
  | .unfinishedPair => "unexpected end of hex escape"
  | .trailingComma => "trailing comma"
  | .trailingText => "trailing characters"
  | .tooDeep => "recursion limit exceeded"

/-- A fault with its place, counted from one; a column is a count of bytes. -/
structure Error where
  reason : Reason
  line : Nat
  column : Nat
  deriving DecidableEq

def Error.message (e : Error) : Text :=
  e.reason.text ++ " at line " ++ Text.ofNat e.line ++ " column " ++ Text.ofNat e.column

/-- What stops the reader: a reason and the text from the fault on. -/
structure Fault where
  reason : Reason
  rest : Text

/-- The number of collections that may enclose a collection with something in it. -/
def maxDepth : Nat := 200

/-! ### Texts -/

/-- The count of bytes of a code point; a half of a surrogate pair has none. -/
def byteCount : CodePoint → Nat
  | .char c => (Utf8.encodeChar c).length
  | .lone _ => 0

def byteLength (t : Text) : Nat := t.foldl (fun n c => n + byteCount c) 0

/-- The number of the four hexadecimal digits of an escape, in the text after its `u`. Of a text
that is too short for an escape, in bytes, only that is said. -/
def unit (digits : Text) : Except Fault Nat :=
  if byteLength (digits.take 4) < 4 then .error ⟨.endInText, []⟩
  else
    match hex4? digits with
    | some n => .ok n
    | none => .error ⟨.invalidEscape, digits.dropWhile fun c => c.hexDigit?.isSome⟩

/-- The code point of an escape by number and the count of code points that spell it, in the text
after the `u`, which counts too. A half is refused at the last of its digits. -/
def numericEscape (digits : Text) : Except Fault (CodePoint × Nat) := do
  let n ← unit digits
  if isLowHalf n then throw ⟨.loneHalf, digits.drop 3⟩
  if !isHighHalf n then return (point n, 5)
  match digits.drop 4 with
  | [] => throw ⟨.endInText, []⟩
  | [.char '\\'] => throw ⟨.endInText, []⟩
  | .char '\\' :: .char 'u' :: more =>
    let m ← unit more
    if !isLowHalf m then throw ⟨.loneHalf, more.drop 3⟩
    return (point (joinHalves n m), 11)
  | .char '\\' :: more => throw ⟨.unfinishedPair, more⟩
  | more => throw ⟨.unfinishedPair, more⟩

/-- The code point of an escape and the count of code points that spell it, after the backslash. -/
def escape : Text → Except Fault (CodePoint × Nat)
  | [] => .error ⟨.endInText, []⟩
  | .char 'u' :: digits => numericEscape digits
  | c :: rest =>
    match simpleEscape? c with
    | some d => .ok (d, 1)
    | none => .error ⟨.invalidEscape, c :: rest⟩

/-- A text up to its closing quote, after `skip` code points of an escape that is read already. -/
def textBody : Nat → Text → Except Fault (Text × Text)
  | _, [] => .error ⟨.endInText, []⟩
  | skip + 1, _ :: rest => textBody skip rest
  | 0, .char '"' :: rest => .ok ([], rest)
  | 0, .char '\\' :: rest => do
    let (c, count) ← escape rest
    let (t, after) ← textBody count rest
    return (c :: t, after)
  | 0, c :: rest =>
    if c.value < 0x20 then .error ⟨.controlCharacter, c :: rest⟩
    else do
      let (t, after) ← textBody 0 rest
      return (c :: t, after)

/-! ### Words and numbers -/

/-- The text after a word, or the first place where it differs from the word. -/
def word : List Char → Text → Except Fault Text
  | [], t => .ok t
  | _ :: _, [] => .error ⟨.endInValue, []⟩
  | c :: cs, d :: t => if d = .char c then word cs t else .error ⟨.expectedWord, d :: t⟩

/-- At least one digit at the start of a text. -/
def digits : Text → Except Fault (Text × Text)
  | [] => .error ⟨.endInValue, []⟩
  | c :: rest =>
    if c.isDigit then
      .ok ((c :: rest).takeWhile CodePoint.isDigit, rest.dropWhile CodePoint.isDigit)
    else .error ⟨.invalidNumber, c :: rest⟩

/-- The exponent at the start of a text, where an `e` calls for one. -/
def exponent : Text → Except Fault (Option Int × Text)
  | [] => .ok (none, [])
  | c :: rest =>
    if c.isOneOf "eE" then do
      let (negative, body) := exponentSign rest
      let (spelled, after) ← digits body
      return (some (exponentValue negative spelled), after)
    else .ok (none, c :: rest)

/-- The fraction at the start of a text, where a point calls for one. -/
def fraction : Text → Except Fault (Option Text × Text)
  | .char '.' :: rest => do
    let (spelled, after) ← digits rest
    return (some spelled, after)
  | t => .ok (none, t)

/-- The whole part at the start of a text. Its digits are bounded before it is known whether a
fraction or an exponent follows. -/
def whole : Text → Except Fault (Text × Text)
  | [] => .error ⟨.endInValue, []⟩
  | .char '0' :: rest =>
    match rest with
    | d :: _ => if d.isDigit then .error ⟨.invalidNumber, rest⟩ else .ok ([.char '0'], rest)
    | [] => .ok ([.char '0'], [])
  | t => do
    let (spelled, after) ← digits t
    if maxDigits < spelled.length then throw ⟨.numberTooLong, t.drop (maxDigits + 1)⟩
    return (spelled, after)

def number (negative : Bool) (body : Text) : Except Fault (Json × Text) := do
  let (spelled, afterWhole) ← whole body
  let (fraction, afterFraction) ← fraction afterWhole
  let (exponent, rest) ← exponent afterFraction
  return ((Numeral.mk negative spelled fraction exponent).value, rest)

/-- The word or number at the start of a text that is not empty. -/
def wordOrNumber (t : Text) : Except Fault (Json × Text) :=
  match t with
  | .char 't' :: rest => (word "rue".toList rest).map (Json.bool true, ·)
  | .char 'f' :: rest => (word "alse".toList rest).map (Json.bool false, ·)
  | .char 'n' :: rest => (word "ull".toList rest).map (Json.null, ·)
  | .char 'N' :: rest => (word "aN".toList rest).map (Json.float (.nan 2), ·)
  | .char 'I' :: rest => (word "nfinity".toList rest).map (Json.float (.infinite false), ·)
  | .char '-' :: .char 'I' :: rest =>
    (word "nfinity".toList rest).map (Json.float (.infinite true), ·)
  | .char '-' :: rest => number true rest
  | c :: _ => if c.isDigit then number false t else .error ⟨.expectedValue, t⟩
  | [] => .error ⟨.endInValue, []⟩

/-! ### Values -/

/-- The name of an entry and the text from its value on; the text starts at the opening quote. -/
def name : Text → Except Fault (Text × Text)
  | .char '"' :: inner => do
    let (name, after) ← textBody 0 inner
    match skipSpace after with
    | .char ':' :: rest =>
      match skipSpace rest with
      | [] => throw ⟨.endInValue, []⟩
      | rest => return (name, rest)
    | [] => throw ⟨.endInObject, []⟩
    | rest => throw ⟨.expectedColon, rest⟩
  | t => .error ⟨.expectedName, t⟩

/-- A collection with something in it is not too deep. -/
def checkDepth (depth : Nat) (rest : Text) : Except Fault Unit :=
  if maxDepth ≤ depth then .error ⟨.tooDeep, rest⟩ else .ok ()

mutual

/-- The value at the start of a text, inside of `depth` collections; `fuel` bounds the nesting and
the number of items. -/
def value : Nat → Nat → Text → Except Fault (Json × Text)
  | 0, _, t => .error ⟨.expectedValue, t⟩
  | fuel + 1, depth, t =>
    match t with
    | .char '"' :: rest => do
      let (s, after) ← textBody 0 rest
      return (.text s, after)
    | .char '[' :: rest =>
      match skipSpace rest with
      | [] => .error ⟨.endInArray, []⟩
      | .char ']' :: after => .ok (.array [], after)
      | inner => do
        checkDepth depth inner
        let (items, after) ← items fuel (depth + 1) inner
        return (.array items, after)
    | .char '{' :: rest =>
      match skipSpace rest with
      | [] => .error ⟨.endInObject, []⟩
      | .char '}' :: after => .ok (.object [], after)
      | inner => do
        let (first, rest) ← name inner
        checkDepth depth rest
        let (entries, after) ← members fuel (depth + 1) first rest
        return (.object (bindAll entries), after)
    | _ => wordOrNumber t

/-- The items of an array from the next one on, and its closing bracket. -/
def items : Nat → Nat → Text → Except Fault (List Json × Text)
  | 0, _, t => .error ⟨.expectedValue, t⟩
  | fuel + 1, depth, t => do
    let (item, after) ← value fuel depth t
    match skipSpace after with
    | [] => throw ⟨.endInArray, []⟩
    | .char ']' :: rest => return ([item], rest)
    | .char ',' :: rest =>
      match skipSpace rest with
      | [] => throw ⟨.endInValue, []⟩
      | .char ']' :: rest => throw ⟨.trailingComma, .char ']' :: rest⟩
      | rest =>
        let (more, rest) ← items fuel depth rest
        return (item :: more, rest)
    | rest => throw ⟨.expectedArrayEnd, rest⟩

/-- The entries of an object from the value of the next one on, and its closing brace. -/
def members : Nat → Nat → Text → Text → Except Fault (List (Text × Json) × Text)
  | 0, _, _, t => .error ⟨.expectedValue, t⟩
  | fuel + 1, depth, first, t => do
    let (item, after) ← value fuel depth t
    match skipSpace after with
    | [] => throw ⟨.endInObject, []⟩
    | .char '}' :: rest => return ([(first, item)], rest)
    | .char ',' :: rest =>
      match skipSpace rest with
      | [] => throw ⟨.endInValue, []⟩
      | .char '}' :: rest => throw ⟨.trailingComma, .char '}' :: rest⟩
      | rest =>
        let (next, rest) ← name rest
        let (more, rest) ← members fuel depth next rest
        return ((first, item) :: more, rest)
    | rest => throw ⟨.expectedObjectEnd, rest⟩

end

/-- The value that a whole text spells, with blanks around it. -/
def document (t : Text) : Except Fault Json := do
  match skipSpace t with
  | [] => throw ⟨.endInValue, []⟩
  | inner =>
    let (j, after) ← value (t.length + 1) 0 inner
    match skipSpace after with
    | [] => return j
    | rest => throw ⟨.trailingText, rest⟩

/-! ### Places -/

/-- The line and the column, both counted from one, of a code point after the ones before it. A line
break is the column 0 of the line that it starts. -/
def place (before : Text) (here : Option CodePoint) : Nat × Nat :=
  let line := before.count (.char '\n') + 1
  let column := byteLength (before.reverse.takeWhile (· != .char '\n'))
  match here with
  | none => (line, column)
  | some (.char '\n') => (line + 1, 0)
  | some _ => (line, column + 1)

/-- Read a text as plain data. -/
def read (t : Text) : Except Error Json :=
  (document t).mapError fun fault =>
    let (line, column) := place (t.take (t.length - fault.rest.length)) fault.rest.head?
    ⟨fault.reason, line, column⟩

end Schematic.Json.Strict
