import Schematic.Text

/-!
# Blanks

The characters that count as white space at the ends of a setting or a numeral: those of the
Unicode property White_Space and the four separators of ASCII.
-/

namespace Schematic

/-- The code point is white space. -/
def CodePoint.isBlank : CodePoint → Bool
  | .char c =>
    ('\t' ≤ c && c ≤ '\r') || ('\x1c' ≤ c && c ≤ ' ') || c == '\x85' || c == '\xa0'
      || c == '\u1680' || ('\u2000' ≤ c && c ≤ '\u200a') || c == '\u2028' || c == '\u2029'
      || c == '\u202f' || c == '\u205f' || c == '\u3000'
  | .lone _ => false

namespace Text

/-- The text without the white space at its start. -/
def trimStart (t : Text) : Text := t.dropWhile CodePoint.isBlank

/-- The text without the white space at its end. -/
def trimEnd (t : Text) : Text := (t.reverse.dropWhile CodePoint.isBlank).reverse

/-- The text without the white space at its two ends. -/
def trim (t : Text) : Text := t.trimStart.trimEnd

end Text

end Schematic
