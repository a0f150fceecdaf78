import Schematic.Json.Writer
import Schematic.Yaml.Style

/-!
# Writing YAML text

Plain data as a document in block style: every entry of an object and every item of an array has a
line of its own. The items of an array that is the value of a key stand at the key's own column, and
what is inside of an item or an entry stands two columns further. The document is ASCII; a scalar
that runs past the width of a line is folded at blanks between words.
-/

namespace Schematic.Yaml

/-- The column that a line may reach before it is folded. -/
def lineWidth : Nat := 80

/-- Numbers: always with a point, which tells them from integers. -/
def numbers : Double.Layout :=
  { Json.wideNumbers with
    pointBeforeExponent := true, infinity := ".inf", negativeInfinity := "-.inf", nan := ".nan" }

def newLine (indent : Nat) : Text := .char '\n' :: Text.spaces indent

/-! ### Scalars -/

/-- A blank stands alone between two words. -/
def isWordGap (before : Option CodePoint) (after : Text) : Bool :=
  match before, after with
  | some b, a :: _ => b != .char ' ' && a != .char ' '
  | _, _ => false

/-- The ends of lines in a folded scalar: the first of a run is doubled, since a single one would be
read as a blank, and the last one is followed by the indentation. -/
def foldedLineEnd (indent : Nat) (before : Option CodePoint) (after : Text) : Text :=
  let first : Text := if before = some (.char '\n') then [] else "\n"
  let last : Text := if after.head? = some (.char '\n') then [] else Text.spaces indent
  first ++ "\n" ++ last

/-- The words of a scalar. A blank between two words becomes a new line when the line is past its
width; `write` gives the form of all other code points. -/
def foldWords (write : CodePoint → Text) (split : Bool) (indent : Nat) :
    Option CodePoint → Nat → Text → Text
  | _, _, [] => []
  | before, column, c :: rest =>
    if c = .char '\n' then
      foldedLineEnd indent before rest ++ foldWords write split indent (some c) indent rest
    else if c = .char ' ' ∧ split ∧ lineWidth < column ∧ isWordGap before rest then
      newLine indent ++ foldWords write split indent (some c) indent rest
    else
      write c ++ foldWords write split indent (some c) (column + (write c).length) rest

/-- A code point between single quotes: a quote is written twice. -/
def singleQuotedPoint (c : CodePoint) : Text := if c = .char '\'' then "''" else [c]

/-- The letters of the escapes between double quotes. -/
def escapeLetters : List (Char × Char) :=
  [('\x00', '0'), ('\x07', 'a'), ('\x08', 'b'), ('\t', 't'), ('\n', 'n'), ('\x0b', 'v'),
    ('\x0c', 'f'), ('\r', 'r'), ('\x1b', 'e'), ('"', '"'), ('\\', '\\'), ('\x85', 'N'),
    ('\xa0', '_'), ('\u2028', 'L'), ('\u2029', 'P')]

/-- The escape of a code point: by a letter if it has one, else by its number. -/
def escapeOf (c : CodePoint) : Text :=
  match escapeLetters.find? fun e => c == .char e.1 with
  | some (_, letter) => Text.ofChars ['\\', letter]
  | none =>
    if c.value ≤ 0xff then "\\x" ++ Text.hexUpper 2 c.value
    else if c.value ≤ 0xffff then "\\u" ++ Text.hexUpper 4 c.value
    else "\\U" ++ Text.hexUpper 8 c.value

/-- The code point stands for itself between double quotes. -/
def isBare (c : CodePoint) : Bool := c.within ' ' '~' && !c.isOneOf "\"\\"

/-- A folded line between double quotes: a backslash joins it to the next line, and one more keeps a
blank at the start of that line. -/
def joinedLine (indent : Nat) (after : Text) : Text :=
  let kept : Text := if after.head? = some (.char ' ') then "\\" else []
  "\\" ++ newLine indent ++ kept

/-- The code points between double quotes. A line that is past its width ends before a blank, or
next to an escape; `afterEscape` says that nothing but an escape stands before the text, and the
first and the last code point are never parted from the quotes. -/
def doubleQuotedBody (split : Bool) (indent : Nat) :
    (isFirst afterEscape : Bool) → Nat → Text → Text
  | _, _, _, [] => []
  | isFirst, afterEscape, column, c :: rest =>
    let mayEnd := split && !isFirst && !rest.isEmpty
    if isBare c then
      if mayEnd ∧ (c = .char ' ' ∨ afterEscape) ∧ lineWidth < column then
        let join := joinedLine indent (c :: rest)
        join ++ c :: doubleQuotedBody split indent false false
          (indent + (if c = .char ' ' then 2 else 1)) rest
      else c :: doubleQuotedBody split indent false false (column + 1) rest
    else
      let column := column + (escapeOf c).length
      if mayEnd ∧ lineWidth + 1 < column then
        escapeOf c ++ joinedLine indent rest
          ++ doubleQuotedBody split indent false true
            (indent + (if rest.head? = some (.char ' ') then 1 else 0)) rest
      else escapeOf c ++ doubleQuotedBody split indent false true column rest

/-- A text as a scalar that starts at a column; its further lines have the indentation `indent`. -/
def scalar (split : Bool) (indent column : Nat) (t : Text) : Text :=
  match ScalarStyle.of t with
  | .plain => foldWords (fun c => [c]) split indent none column t
  | .singleQuoted =>
    "'" ++ foldWords singleQuotedPoint split indent none (column + 1) t ++ "'"
  | .doubleQuoted => "\"" ++ doubleQuotedBody split indent true false (column + 1) t ++ "\""

/-! ### Collections -/

/-- A simple key at the indentation of its mapping; it is never folded. -/
def simpleKey (indent : Nat) (name : Text) : Text := scalar false (indent + 2) indent name

/-- Lines at an indentation; the first one starts where the text is written. -/
def lines (indent : Nat) (ls : List Text) : Text := Text.join (newLine indent) ls

mutual

/-- Plain data from the column `indent` on, with its further lines at the same indentation. -/
def block (indent : Nat) : Json → Text
  | .null => "null"
  | .bool b => if b then "true" else "false"
  | .int n => Text.ofInt n
  | .float x => numbers.text x
  | .text t => scalar true indent indent t
  | .array [] => "[]"
  | .object [] => "\x7b\x7d"
  | .array (j :: js) => lines indent (itemLines indent (j :: js))
  | .object (e :: es) => lines indent (entryLines indent (e :: es))

/-- Plain data after a simple key of a mapping at the indentation `indent`; `column` is that of the
colon's right side. -/
def keyed (indent column : Nat) : Json → Text
  | .null => " null"
  | .bool b => if b then " true" else " false"
  | .int n => " " ++ Text.ofInt n
  | .float x => " " ++ numbers.text x
  | .text t => " " ++ scalar true (indent + 2) (column + 1) t
  | .array [] => " []"
  | .object [] => " \x7b\x7d"
  | .array (j :: js) => newLine indent ++ lines indent (itemLines indent (j :: js))
  | .object (e :: es) =>
    newLine (indent + 2) ++ lines (indent + 2) (entryLines (indent + 2) (e :: es))

/-- The items of an array, each after its dash. -/
def itemLines (indent : Nat) : List Json → List Text
  | [] => []
  | j :: js => ("- " ++ block (indent + 2) j) :: itemLines indent js

/-- The entries of an object. A key that is not simple is marked as a key, and its value follows on
a line of its own. -/
def entryLines (indent : Nat) : List (Text × Json) → List Text
  | [] => []
  | (name, j) :: es =>
    let key := simpleKey indent name
    let entry :=
      if isSimpleKey name then key ++ ":" ++ keyed indent (indent + key.length + 1) j
      else
        "? " ++ scalar true (indent + 2) (indent + 2) name ++ newLine indent ++ ": "
          ++ block (indent + 2) j
    entry :: entryLines indent es

end

def render (entries : List (Text × Json)) : Text := block 0 (.object entries) ++ "\n"

end Schematic.Yaml
