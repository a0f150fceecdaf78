import Schematic.Yaml.Tag

/-!
# Styles of scalars

How a text is written as a scalar. Plain where its spelling would be read as a text and nothing in
it could be taken for punctuation; else between single quotes where it is ASCII and its blanks
survive the folding of lines; else between double quotes, with escapes.
-/

namespace Schematic.Yaml

/-- How a scalar is written. -/
inductive ScalarStyle where
  | plain
  | singleQuoted
  | doubleQuoted
  deriving DecidableEq

/-- The code point ends a line of a scalar. -/
def isLineEnd (c : CodePoint) : Bool := c.isOneOf "\n\x85\u2028\u2029"

/-- The code point separates what is around it: a blank, the end of a line, or zero. -/
def isGap (c : CodePoint) : Bool := c.isOneOf "\x00 \t\r\n\x85\u2028\u2029"

/-- A gap or the end of the text comes next. -/
def gapAhead (t : Text) : Bool := (t.head?.map isGap).getD true

/-- The code point is ASCII with a printed form, or a line feed. -/
def isOrdinary (c : CodePoint) : Bool := c.within ' ' '~' || c == .char '\n'

/-- The text starts like a marker of a document, or like something else than a scalar. -/
def startsWithIndicator (t : Text) : Bool :=
  t.startsWith "---" || t.startsWith "..." ||
    match t with
    | [] => false
    | c :: rest =>
      c.isOneOf "#,[]\x7b\x7d&*!|>'\"%@`" || (c.isOneOf "?:-" && gapAhead rest)

/-- A colon before a gap, or a number sign after one; `afterGap` is about the first code point. -/
def hasIndicator (afterGap : Bool) : Text → Bool
  | [] => false
  | c :: rest =>
    (c == .char ':' && gapAhead rest) || (c == .char '#' && afterGap)
      || hasIndicator (isGap c) rest

/-- A blank or the end of a line stands at one of the two ends of the text. -/
def hasOuterBlank (t : Text) : Bool :=
  let isOuter (c : Option CodePoint) : Bool :=
    (c.map fun c => c == .char ' ' || isLineEnd c).getD false
  isOuter t.head? || isOuter t.getLast?

/-- A blank stands next to the end of a line. -/
def hasBlankAtLineEnd : Text → Bool
  | c :: d :: rest =>
    (c == .char ' ' && isLineEnd d) || (isLineEnd c && d == .char ' ')
      || hasBlankAtLineEnd (d :: rest)
  | _ => false

/-- The text may be written plain. -/
def allowsPlain (t : Text) : Bool :=
  Tag.ofPlain t == .text && t.all (fun c => isOrdinary c && !isLineEnd c) && !hasOuterBlank t
    && !startsWithIndicator t && !hasIndicator false t

/-- The text may be written between single quotes. -/
def allowsSingleQuotes (t : Text) : Bool := t.all isOrdinary && !hasBlankAtLineEnd t

def ScalarStyle.of (t : Text) : ScalarStyle :=
  if allowsPlain t then .plain
  else if allowsSingleQuotes t then .singleQuoted
  else .doubleQuoted

/-- The longest key that is written in front of its value on one line. -/
def maxSimpleKey : Nat := 122

/-- The text is written as a key in front of its value on one line. -/
def isSimpleKey (t : Text) : Bool :=
  !t.isEmpty && t.length ≤ maxSimpleKey && !t.any isLineEnd

end Schematic.Yaml
