import Schematic.Text.Utf8
import Schematic.Value.Literal

/-!
# Values as plain data

Every value has a plain form: a date or a time is its text, bytes are the text that they encode,
tuples and sets are arrays, a number that is not finite is null, and a key of a map is spelled as a
text. Two keys that are spelled alike are both kept by `Value.plain`; `Json.settled` lets the later
one win.
-/

namespace Schematic

/-- Why a value has no plain form. -/
inductive PlainError where
  /-- Bytes that encode no text. -/
  | bytes (e : Utf8.Error)
  /-- A text that holds half of a surrogate pair, where it has to have bytes. -/
  | unwritable (u : Utf8.Unwritable)
  /-- An integer that is too long to be spelled as a key. -/
  | tooManyDigits
  deriving DecidableEq

def PlainError.message : PlainError → Text
  | .bytes e =>
    "'utf-8' codec can't decode byte 0x" ++ Text.hex 2 e.byte.toNat ++ " in position "
      ++ Text.ofNat e.start ++ ": invalid utf-8"
  | .unwritable u => u.message
  | .tooManyDigits => tooManyDigitsText

/-- The message of an error when compact JSON text is written. -/
def PlainError.compactMessage (e : PlainError) : Text :=
  let reason : Text :=
    match e with
    | .bytes e =>
      if e.reason = .unexpectedEnd then
        "incomplete utf-8 byte sequence from index " ++ Text.ofNat e.start
      else
        "invalid utf-8 sequence of " ++ Text.ofNat e.length ++ " bytes from index "
          ++ Text.ofNat e.start
    | .unwritable u => "UnicodeEncodeError: " ++ u.message
    | .tooManyDigits => "ValueError: " ++ tooManyDigitsText
  "Error serializing to JSON: " ++ reason

/-- Numbers outside of JSON text: as within it, with words of their own for what is not finite. -/
def spelledNumbers : Double.Layout :=
  { Json.wideNumbers with infinity := "inf", negativeInfinity := "-inf", nan := "nan" }

namespace Value

def bytesText (bs : List UInt8) : Except PlainError Text :=
  (Utf8.decode bs).mapError .bytes

mutual

/-- A value as a key of an object. -/
def plainKey : Value → Except PlainError Text
  | .null => .ok "None"
  | .bool b => .ok (if b then "true" else "false")
  | .int n => if isTooLong n then .error .tooManyDigits else .ok (Text.ofInt n)
  | .float x => .ok (spelledNumbers.text x)
  | .text t =>
    match Utf8.unwritable? t with
    | some u => .error (.unwritable u)
    | none => .ok t
  | .bytes bs => bytesText bs
  | .date d => .ok d.text
  | .dateTime t => .ok t.plainText
  | .list vs | .tuple vs | .set vs => do
    let parts ← plainKeys vs
    return Text.join "," parts
  | .map _ => .ok []

def plainKeys : List Value → Except PlainError (List Text)
  | [] => .ok []
  | v :: vs => do
    let t ← v.plainKey
    let ts ← plainKeys vs
    return t :: ts

end

mutual

/-- A value as plain data. -/
def plain : Value → Except PlainError Json
  | .null => .ok .null
  | .bool b => .ok (.bool b)
  | .int n => .ok (.int n)
  | .float x => .ok (if x.isFinite then .float x else .null)
  | .text t => .ok (.text t)
  | .bytes bs => (bytesText bs).map .text
  | .date d => .ok (.text d.text)
  | .dateTime t => .ok (.text t.plainText)
  | .list vs | .tuple vs | .set vs => do
    let items ← plainList vs
    return .array items
  | .map es => do
    let entries ← plainEntries es
    return .object entries

/-- Values as the items of an array. -/
def plainList : List Value → Except PlainError (List Json)
  | [] => .ok []
  | v :: vs => do
    let j ← v.plain
    let js ← plainList vs
    return j :: js

def plainEntries : List (Value × Value) → Except PlainError (List (Text × Json))
  | [] => .ok []
  | (k, v) :: es => do
    let name ← k.plainKey
    let j ← v.plain
    let rest ← plainEntries es
    return (name, j) :: rest

end

end Value

namespace Json

mutual

/-- Plain data in which no object repeats a name: the last value counts, in the first place. -/
def settled : Json → Json
  | .null => .null
  | .bool b => .bool b
  | .int n => .int n
  | .float x => .float x
  | .text t => .text t
  | .array items => .array (settledItems items)
  | .object entries => .object (bindAll (settledEntries entries))

/-- Items in which no object repeats a name. -/
def settledItems : List Json → List Json
  | [] => []
  | j :: js => j.settled :: settledItems js

/-- Entries in whose values no object repeats a name. -/
def settledEntries : List (Text × Json) → List (Text × Json)
  | [] => []
  | (k, j) :: es => (k, j.settled) :: settledEntries es

end

mutual

/-- The first code points without bytes in the texts and names of plain data. -/
def unwritable? : Json → Option Utf8.Unwritable
  | .text t => Utf8.unwritable? t
  | .array items => unwritableItems? items
  | .object entries => unwritableEntries? entries
  | .null | .bool _ | .int _ | .float _ => none

/-- The first code points without bytes in some items. -/
def unwritableItems? : List Json → Option Utf8.Unwritable
  | [] => none
  | j :: js => j.unwritable?.or (unwritableItems? js)

/-- The first code points without bytes in some entries. -/
def unwritableEntries? : List (Text × Json) → Option Utf8.Unwritable
  | [] => none
  | (k, j) :: es => (Utf8.unwritable? k).or (j.unwritable?.or (unwritableEntries? es))

end

end Json

end Schematic
