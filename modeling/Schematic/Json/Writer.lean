import Schematic.Double.Layout
import Schematic.Json

/-!
# Writing JSON text

One writer with a style: which code points are escaped, what stands between the parts, whether each
item has a line of its own, and how numbers are laid out.
-/

namespace Schematic.Json

/-- The choices of a writer. -/
structure Style where
  /-- Everything but printable ASCII is escaped. -/
  ascii : Bool
  /-- What separates items on one line. -/
  comma : Text
  /-- What separates a name from its value. -/
  colon : Text
  /-- The indentation of one level, when each item has its own line. -/
  indent : Option Nat
  numbers : Double.Layout

/-- Numbers as they are written into texts: a point within the digits from `0.0001` up to sixteen
digits, and an exponent of at least two digits outside of that range. -/
def wideNumbers : Double.Layout where
  leastPoint := -3
  greatestPoint := 16
  exponentWidth := 2
  pointBeforeExponent := false
  infinity := "Infinity"
  negativeInfinity := "-Infinity"
  nan := "NaN"

/-- Numbers of the compact form: from `0.00001` up to sixteen digits, and a short exponent outside
of that range. -/
def compactNumbers : Double.Layout where
  leastPoint := -4
  greatestPoint := 16
  exponentWidth := 1
  pointBeforeExponent := false
  infinity := "null"
  negativeInfinity := "null"
  nan := "null"

/-- Everything on one line, with no blanks. -/
def compact : Style := ⟨false, ",", ":", none, compactNumbers⟩

/-- Each item on its own line, indented by two blanks. -/
def indented : Style := ⟨false, ",", ": ", some 2, wideNumbers⟩

/-- Everything on one line in ASCII, with a blank after each separator. -/
def ascii : Style := ⟨true, ", ", ": ", none, wideNumbers⟩

/-- The escape of a unit of 16 bits. -/
def unitEscape (n : Nat) : Text := "\\u" ++ Text.hex 4 n

/-- The escape of a code point by number; a pair of units when the number is past 16 bits. -/
def numericEscapeText (n : Nat) : Text :=
  if n < 0x10000 then unitEscape n
  else unitEscape (0xD800 + (n - 0x10000) / 0x400) ++ unitEscape (0xDC00 + (n - 0x10000) % 0x400)

def pointText (ascii : Bool) (c : CodePoint) : Text :=
  match c with
  | .char '"' => "\\\""
  | .char '\\' => "\\\\"
  | .char '\n' => "\\n"
  | .char '\r' => "\\r"
  | .char '\t' => "\\t"
  | .char '\x08' => "\\b"
  | .char '\x0c' => "\\f"
  | c =>
    if c.value < 0x20 ∨ (ascii ∧ 0x7e < c.value) then numericEscapeText c.value else [c]

def textText (ascii : Bool) (t : Text) : Text :=
  .char '"' :: t.flatMap (pointText ascii) ++ [.char '"']

namespace Style

/-- What goes before an item at a depth: a line break and its indentation, or nothing. -/
def lineStart (s : Style) (depth : Nat) : Text :=
  match s.indent with
  | none => []
  | some width => .char '\n' :: Text.spaces (width * depth)

def bracketed (s : Style) (depth : Nat) (opening closing : Text) (items : List Text) : Text :=
  match items with
  | [] => opening ++ closing
  | items =>
    let separator := s.comma ++ s.lineStart (depth + 1)
    opening ++ s.lineStart (depth + 1) ++ Text.join separator items ++ s.lineStart depth ++ closing

mutual

/-- The text of plain data inside of `depth` collections. -/
def write (s : Style) (depth : Nat) : Json → Text
  | .null => "null"
  | .bool b => if b then "true" else "false"
  | .int n => Text.ofInt n
  | .float x => s.numbers.text x
  | .text t => textText s.ascii t
  | .array items => s.bracketed depth "[" "]" (writeItems s (depth + 1) items)
  | .object entries => s.bracketed depth "\x7b" "\x7d" (writeEntries s (depth + 1) entries)

def writeItems (s : Style) (depth : Nat) : List Json → List Text
  | [] => []
  | j :: js => write s depth j :: writeItems s depth js

def writeEntries (s : Style) (depth : Nat) : List (Text × Json) → List Text
  | [] => []
  | (k, j) :: es => (textText s.ascii k ++ s.colon ++ write s depth j) :: writeEntries s depth es

end

end Style

/-- The text of plain data in a style. -/
def render (s : Style) (j : Json) : Text := s.write 0 j

end Schematic.Json
