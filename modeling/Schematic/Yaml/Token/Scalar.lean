import Schematic.Yaml.Error

/-!
# Scalars

The four ways of writing a scalar: plain, between single or double quotes, and as a block of lines.
Each reader takes the source at the start of the scalar and gives its content and the source after
it.

A line break within a scalar is folded: a single one becomes a space, and of several the first one
is dropped. A break that is a Unicode separator is never dropped.
-/

namespace Schematic.Yaml

def refuse {α : Type} (context : Option Context) (since : Option Mark) (problem : Problem)
    (mark : Mark) : Except Failure α :=
  .error (.refused (.at .tokens context since problem mark))

/-- What a line break and the empty lines after it become. -/
def folded (first : Char) (breaks : List Char) : List Char :=
  if breakChar first ≠ '\n' then breakChar first :: breaks
  else if breaks.isEmpty then [' ']
  else breaks

/-! ### Quoted scalars -/

/-- What a character after a backslash stands for. -/
def escapes : List (Char × Char) :=
  [('0', '\x00'), ('a', '\x07'), ('b', '\x08'), ('t', '\t'), ('\t', '\t'), ('n', '\n'),
    ('v', '\x0b'), ('f', '\x0c'), ('r', '\r'), ('e', '\x1b'), (' ', ' '), ('"', '"'),
    ('\\', '\\'), ('/', '/'), ('N', '\x85'), ('_', '\xa0'), ('L', '\u2028'), ('P', '\u2029')]

/-- How many hexadecimal digits follow a letter after a backslash. -/
def hexEscapeLength? (c : Char) : Option Nat :=
  if c = 'x' then some 2 else if c = 'u' then some 4 else if c = 'U' then some 8 else none

/-- The number of `count` hexadecimal digits, or the first character that is none. -/
def hexNumber : Nat → Nat → Source → Except (Option Char) (Nat × Source)
  | 0, n, s => .ok (n, s)
  | count + 1, n, s =>
    match s with
    | .done _ => .error none
    | .more c _ rest =>
      match (CodePoint.char c).hexDigit? with
      | some d => hexNumber count (n * 16 + d) rest
      | none => .error (some c)

/-- The code point with a number that an escape spells. -/
def escapedPoint (n : Nat) : Except Failure CodePoint :=
  match CodePoint.ofNat? n with
  | some c => .ok c
  | none => .error (.unconverted (if n < 2 ^ 31 then .noCodePoint else .codePointTooLarge))

/-- The line breaks of the lines that hold nothing but blanks; `atStart` says that a line starts
here, where no document marker may stand. -/
def quotedBreaks (start : Mark) (atStart : Bool) (s : Source) :
    Except Failure (List Char × Source) :=
  if atStart && s.atDocumentMarker then
    refuse (some .quotedScalar) (some start) .markerInQuotes s.mark
  else
    match s with
    | .done m => .ok ([], .done m)
    | .more c m rest =>
      if isSpaceOrTab c then quotedBreaks start false rest
      else if isBreak c then do
        let (breaks, after) ← quotedBreaks start true rest
        return (breakChar c :: breaks, after)
      else .ok ([], .more c m rest)

/-- The content that an escape spells, from the character after the backslash on. -/
def quotedEscape (start : Mark) (s : Source) : Except Failure (Text × Source) :=
  match s with
  | .done m => refuse (some .doubleQuotedScalar) (some start) (.unknownEscape none) m
  | .more c m rest =>
    match escapes.lookup c, hexEscapeLength? c with
    | some d, _ => .ok ([.char d], rest)
    | none, some count =>
      match hexNumber count 0 rest with
      | .ok (n, after) => do return ([← escapedPoint n], after)
      | .error found =>
        refuse (some .doubleQuotedScalar) (some start) (.expectedHexDigits count found) rest.mark
    | none, none =>
      if isBreak c then do
        let (breaks, after) ← quotedBreaks start true rest
        return (Text.ofChars breaks, after)
      else refuse (some .doubleQuotedScalar) (some start) (.unknownEscape (some c)) m

/-- The content of a run of blanks: the blanks themselves, or the folded line break after them. -/
def quotedBlanks (start : Mark) (s : Source) : Except Failure (Text × Source) :=
  let (blanks, after) := s.span isSpaceOrTab
  match after with
  | .done m => refuse (some .quotedScalar) (some start) .endInQuotes m
  | .more c _ rest =>
    if isBreak c then do
      let (breaks, after) ← quotedBreaks start true rest
      return (Text.ofChars (folded c breaks), after)
    else .ok (Text.ofChars blanks, after)

/-- The content up to the closing quote; `fuel` bounds the number of pieces. -/
def quotedBody (double : Bool) (start : Mark) : Nat → Source → Except Failure (Text × Source)
  | 0, s => refuse (some .quotedScalar) (some start) .endInQuotes s.mark
  | fuel + 1, s =>
    match s with
    | .done m => refuse (some .quotedScalar) (some start) .endInQuotes m
    | .more c _ rest =>
      if c = '\'' ∧ ¬double then
        if rest.peek = some '\'' then do
          let (t, after) ← quotedBody double start fuel rest.tail
          return (.char '\'' :: t, after)
        else .ok ([], rest)
      else if c = '"' ∧ double then .ok ([], rest)
      else if c = '\\' ∧ double then do
        let (piece, after) ← quotedEscape start rest
        let (t, after) ← quotedBody double start fuel after
        return (piece ++ t, after)
      else if isSpaceOrTab c || isBreak c then do
        let (piece, after) ← quotedBlanks start s
        let (t, after) ← quotedBody double start fuel after
        return (piece ++ t, after)
      else do
        let (t, after) ← quotedBody double start fuel rest
        return (.char c :: t, after)

def quotedScalar (double : Bool) (s : Source) : Except Failure (Text × Source) :=
  quotedBody double s.mark (s.length + 1) s.tail

/-! ### Plain scalars -/

/-- The character is part of the flow syntax, so that it ends a plain scalar there. -/
def isFlowIndicator (c : Char) : Bool :=
  c == ',' || c == '[' || c == ']' || c == '\x7b' || c == '\x7d'

/-- A colon before this source ends a plain scalar. -/
def colonEnds (inFlow : Bool) (s : Source) : Bool :=
  s.atBlank || (inFlow && (s.peek.map isFlowIndicator).getD false)

/-- The piece of a plain scalar up to the next blank or indicator. -/
def plainPiece (inFlow : Bool) : Source → List Char × Source
  | .done m => ([], .done m)
  | .more c m rest =>
    if isSpaceOrTab c || isBreak c || (c == ':' && colonEnds inFlow rest)
        || (inFlow && (c == '?' || isFlowIndicator c)) then
      ([], .more c m rest)
    else
      let (piece, after) := plainPiece inFlow rest
      (c :: piece, after)

/-- The line breaks of the lines that hold nothing but spaces; there is no result when a document
marker starts one of the lines. -/
def plainBreaks (atStart : Bool) (s : Source) : Option (List Char) × Source :=
  if atStart && s.atDocumentMarker then (none, s)
  else
    match s with
    | .done m => (some [], .done m)
    | .more c m rest =>
      if c = ' ' then plainBreaks false rest
      else if isBreak c then
        let (breaks, after) := plainBreaks true rest
        (breaks.map (breakChar c :: ·), after)
      else (some [], .more c m rest)

/-- What the blanks after a piece of a plain scalar become if the scalar goes on, whether they held
a line break, and the source after them. Nothing means that the scalar ends here. -/
def plainBlanks (s : Source) : List Char × Bool × Source :=
  let (spaces, after) := s.span (· = ' ')
  match after with
  | .done m => (spaces, false, .done m)
  | .more c m rest =>
    if isBreak c then
      let (breaks, after) := plainBreaks true rest
      ((breaks.map (folded c)).getD [], true, after)
    else (spaces, false, .more c m rest)

/-- What is found of a plain scalar: its content, where it stops, whether the source after it is on
a new line, and that source. -/
structure Plain where
  content : List Char
  stop : Mark
  broken : Bool
  rest : Source

/-- The pieces of a plain scalar from the next one on. `gap` stands before the next piece, and lines
that are indented less than `indent` do not belong to it; `fuel` bounds the number of pieces. -/
def plainFrom (inFlow : Bool) (indent : Int) : Nat → List Char → Plain → Plain
  | 0, _, found => found
  | fuel + 1, gap, found =>
    if found.rest.peek = some '#' then found
    else
      let (piece, after) := plainPiece inFlow found.rest
      if piece.isEmpty then found
      else
        let (blanks, broken, rest) := plainBlanks after
        let found : Plain := ⟨found.content ++ gap ++ piece, after.mark, broken, rest⟩
        if blanks.isEmpty || (!inFlow && (rest.mark.column : Int) < indent) then found
        else plainFrom inFlow indent fuel blanks found

/-- A plain scalar inside of a block that is indented by `indent - 1`. -/
def plainScalar (inFlow : Bool) (indent : Int) (s : Source) : Plain :=
  plainFrom inFlow indent (s.length + 1) [] ⟨[], s.mark, false, s⟩

/-! ### Block scalars -/

/-- What happens to the line breaks at the end of a block scalar. -/
inductive Chomping where
  | strip
  | clip
  | keep
  deriving DecidableEq

/-- The chomping that a character asks for. -/
def chomping? : Option Char → Option Chomping
  | some '+' => some .keep
  | some '-' => some .strip
  | _ => none

/-- The indentation that a digit asks for; zero is refused. -/
def increment? (start : Mark) (s : Source) : Except Failure (Option Nat) :=
  match s.peek with
  | some c =>
    if '0' ≤ c ∧ c ≤ '9' then
      if c = '0' then refuse (some .blockScalar) (some start) .zeroIndentation s.mark
      else .ok (some (c.toNat - '0'.toNat))
    else .ok none
  | none => .ok none

/-- The indicators after the first character of a block scalar, in either order. -/
def blockIndicators (start : Mark) (s : Source) :
    Except Failure (Chomping × Option Nat × Source) := do
  let (chomping, increment, s) : Chomping × Option Nat × Source ←
    match chomping? s.peek with
    | some chomping => do
      let s := s.tail
      let increment ← increment? start s
      pure (chomping, increment, if increment.isSome then s.tail else s)
    | none => do
      let increment ← increment? start s
      if increment.isSome then
        let s := s.tail
        match chomping? s.peek with
        | some chomping => pure (chomping, increment, s.tail)
        | none => pure (.clip, increment, s)
      else pure (.clip, none, s)
  if s.atGap then return (chomping, increment, s)
  refuse (some .blockScalar) (some start) (.expectedIndicators s.peek) s.mark

/-- The rest of a line that may hold a comment only, and its break. -/
def lineEnd (context : Context) (start : Mark) (s : Source) : Except Failure Source :=
  let s := s.skipSpaces.skipComment
  if s.atBreak then .ok s.skipBreak
  else refuse (some context) (some start) (.expectedLineEnd s.peek) s.mark

/-- The line breaks before the first line of a block scalar and the greatest indentation up to
it. -/
def blockIndentation : Source → List Char × Nat × Source
  | .done m => ([], 0, .done m)
  | .more c m rest =>
    if c = ' ' then
      let (breaks, indent, after) := blockIndentation rest
      (breaks, max indent (m.column + 1), after)
    else if isBreak c then
      let (breaks, indent, after) := blockIndentation rest
      (breakChar c :: breaks, indent, after)
    else ([], 0, .more c m rest)

/-- The line breaks before the next line of a block scalar that holds more than its indentation. -/
def blockBreaks (indent : Nat) : Source → List Char × Source
  | .done m => ([], .done m)
  | .more c m rest =>
    if c = ' ' ∧ m.column < indent then blockBreaks indent rest
    else if isBreak c then
      let (breaks, after) := blockBreaks indent rest
      (breakChar c :: breaks, after)
    else ([], .more c m rest)

/-- The next line belongs to a block scalar. -/
def inBlock (indent : Nat) (s : Source) : Bool :=
  s.peek.isSome && s.mark.column == indent

/-- The next character is a space or a tabulator. -/
def atSpaceOrTab (s : Source) : Bool := (s.peek.map isSpaceOrTab).getD false

/-- The lines of a block scalar from the next one on; `breaks` stand before it, and `fuel` bounds
the number of lines. Given are the content, the break of the last line, the breaks after it, and the
source after the scalar. -/
def blockLines (isFolded : Bool) (indent : Nat) :
    Nat → List Char → Source → List Char × List Char × List Char × Source
  | 0, breaks, s => ([], [], breaks, s)
  | fuel + 1, breaks, s =>
    if !inBlock indent s then ([], [], breaks, s)
    else
      let (line, atEnd) := s.span fun c => !isBreak c
      let lineBreak := (atEnd.peek.map fun c => [breakChar c]).getD []
      let (nextBreaks, rest) := blockBreaks indent atEnd.skipBreak
      if inBlock indent rest then
        let joint :=
          if isFolded && lineBreak == ['\n'] && !atSpaceOrTab s && !atSpaceOrTab rest then
            if nextBreaks.isEmpty then [' '] else []
          else lineBreak
        let (more, last, after, rest) := blockLines isFolded indent fuel nextBreaks rest
        (breaks ++ line ++ joint ++ more, last, after, rest)
      else (breaks ++ line, lineBreak, nextBreaks, rest)

/-- A block scalar inside of a block that is indented by `indent`. -/
def blockScalar (isFolded : Bool) (indent : Int) (s : Source) :
    Except Failure (Text × Source) := do
  let (chomping, increment, header) ← blockIndicators s.mark s.tail
  let body ← lineEnd .blockScalar s.mark header
  let least := max 1 (indent + 1).toNat
  let (indent, breaks, first) :=
    match increment with
    | some n =>
      let indent := least + n - 1
      let (breaks, first) := blockBreaks indent body
      (indent, breaks, first)
    | none =>
      let (breaks, found, first) := blockIndentation body
      (max least found, breaks, first)
  let (content, last, after, rest) := blockLines isFolded indent (first.length + 1) breaks first
  let ending :=
    match chomping with
    | .strip => []
    | .clip => last
    | .keep => last ++ after
  return (Text.ofChars (content ++ ending), rest)

end Schematic.Yaml
