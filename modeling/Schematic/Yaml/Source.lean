import Schematic.Text

/-!
# Sources

The characters of a YAML document, each with its place. A carriage return and a line feed in a row
are one element, which stands for a single line break; the place of what follows counts both.
-/

namespace Schematic.Yaml

/-- A place in a document: the number of characters, of lines and of columns before it. -/
structure Mark where
  index : Nat
  line : Nat
  column : Nat
  deriving DecidableEq

/-- The characters of a document from a place on. -/
inductive Source where
  | more (c : Char) (mark : Mark) (rest : Source)
  | done (mark : Mark)

/-- The character ends a line. -/
def isBreak (c : Char) : Bool :=
  c == '\n' || c == '\r' || c == '\x85' || c == '\u2028' || c == '\u2029'

def isSpaceOrTab (c : Char) : Bool := c == ' ' || c == '\t'

/-- The character may stand in a document. -/
def isAcceptable (c : Char) : Bool :=
  c == '\t' || c == '\n' || c == '\r' || (' ' ≤ c && c ≤ '~') || c == '\x85'
    || ('\xa0' ≤ c && c ≤ '\uFFFD') || 0x10000 ≤ c.toNat

/-- What a line break contributes to a scalar: the two Unicode separators stay, all others become a
line feed. -/
def breakChar (c : Char) : Char := if c = '\u2028' ∨ c = '\u2029' then c else '\n'

namespace Mark

/-- The first place of a document. -/
def origin : Mark := ⟨0, 0, 0⟩

/-- The place after a character; a byte order mark takes no column. -/
def next (m : Mark) (c : Char) : Mark :=
  if isBreak c then ⟨m.index + 1, m.line + 1, 0⟩
  else if c = '\uFEFF' then { m with index := m.index + 1 }
  else { m with index := m.index + 1, column := m.column + 1 }

/-- Two places are on one line and in one column. -/
def sameSpot (m n : Mark) : Bool := m.line == n.line && m.column == n.column

end Mark

namespace Source

def ofCharsAt (m : Mark) : List Char → Source
  | [] => .done m
  | '\r' :: '\n' :: rest => .more '\r' m (ofCharsAt ⟨m.index + 2, m.line + 1, 0⟩ rest)
  | c :: rest => .more c m (ofCharsAt (m.next c) rest)

/-- The source of a whole document; a byte order mark at its start is skipped. -/
def ofChars : List Char → Source
  | '\uFEFF' :: rest => ofCharsAt (Mark.origin.next '\uFEFF') rest
  | cs => ofCharsAt .origin cs

/-- The place of the next character. -/
def mark : Source → Mark
  | .more _ m _ => m
  | .done m => m

def peek : Source → Option Char
  | .more c _ _ => some c
  | .done _ => none

/-- The source after the next character. -/
def tail : Source → Source
  | .more _ _ rest => rest
  | .done m => .done m

def drop : Nat → Source → Source
  | 0, s => s
  | n + 1, s => drop n s.tail

/-- How many characters are left. -/
def length : Source → Nat
  | .more _ _ rest => rest.length + 1
  | .done _ => 0

/-- The longest run of characters of a kind, and the source after it. -/
def span (p : Char → Bool) : Source → List Char × Source
  | .done m => ([], .done m)
  | .more c m rest =>
    if p c then
      let (run, after) := rest.span p
      (c :: run, after)
    else ([], .more c m rest)

/-- The source after the longest run of characters of a kind. -/
def skip (p : Char → Bool) (s : Source) : Source := (s.span p).2

def skipSpaces (s : Source) : Source := s.skip (· = ' ')

/-- The rest of the line is skipped when it is a comment. -/
def skipComment (s : Source) : Source :=
  if s.peek = some '#' then s.skip (fun c => !isBreak c) else s

/-- The next character is a line break, or there is none. -/
def atBreak (s : Source) : Bool :=
  match s.peek with
  | none => true
  | some c => isBreak c

/-- The next character is a space or a line break, or there is none. -/
def atGap (s : Source) : Bool :=
  match s.peek with
  | none => true
  | some c => c == ' ' || isBreak c

/-- The next character is a space, a tabulator or a line break, or there is none. -/
def atBlank (s : Source) : Bool :=
  match s.peek with
  | none => true
  | some c => isSpaceOrTab c || isBreak c

/-- The source after a line break, if there is one. -/
def skipBreak (s : Source) : Source := if s.atBreak then s.tail else s

/-- Three times a character and then a blank. -/
def atTriple (c : Char) (s : Source) : Bool :=
  s.peek == some c && s.tail.peek == some c && s.tail.tail.peek == some c && (s.drop 3).atBlank

/-- The marker of a document's start or end. -/
def atDocumentMarker (s : Source) : Bool := s.atTriple '-' || s.atTriple '.'

end Source

end Schematic.Yaml
