import Schematic.Text.Unprintable

/-!
# Quoted texts

How a message quotes a piece of a document: between single quotes, or between double quotes when the
text holds a single quote and no double one. A code point without a printed form is written as an
escape of the shortest of the three widths that holds its number.
-/

namespace Schematic.Text

/-- The escape of a code point by its number. -/
def numericEscape (n : Nat) : Text :=
  if n ≤ 0xff then "\\x" ++ hex 2 n
  else if n ≤ 0xffff then "\\u" ++ hex 4 n
  else "\\U" ++ hex 8 n

/-- What a code point becomes between two quotes. -/
def quotedPoint (quote : CodePoint) (c : CodePoint) : Text :=
  if c = quote ∨ c = .char '\\' then [.char '\\', c]
  else if c = .char '\t' then "\\t"
  else if c = .char '\n' then "\\n"
  else if c = .char '\r' then "\\r"
  else if c.isUnprintable then numericEscape c.value
  else [c]

def quoted (t : Text) : Text :=
  let quote : CodePoint :=
    if t.contains (.char '\'') && !t.contains (.char '"') then .char '"' else .char '\''
  quote :: t.flatMap (quotedPoint quote) ++ [quote]

end Schematic.Text
