import Schematic.Yaml.Token.Scalar

/-!
# Directives, anchors and tags

The words of a document that are neither indicators nor scalars. Each reader takes the source at the
start of the word and gives the word and the source after it.
-/

namespace Schematic.Yaml

/-- The character may stand in a name. -/
def isNameCharacter (c : Char) : Bool :=
  ('0' ≤ c && c ≤ '9') || ('A' ≤ c && c ≤ 'Z') || ('a' ≤ c && c ≤ 'z') || c == '-' || c == '_'

/-- The character may stand in the written form of a tag. -/
def isUriCharacter (c : Char) : Bool :=
  isNameCharacter c || "-;/?:@&=+$,_.!~*'()[]%".toList.contains c

/-! ### Tags -/

/-- A handle: an exclamation mark, or a name between two of them. -/
def tagHandle (context : Context) (start : Mark) (s : Source) : Except Failure (Text × Source) :=
  match s with
  | .more '!' _ rest =>
    if rest.peek = some ' ' then .ok ("!", rest)
    else
      let (name, after) := rest.span isNameCharacter
      if after.peek = some '!' then .ok (Text.ofChars ('!' :: name ++ ['!']), after.tail)
      else refuse (some context) (some start) (.expectedCharacter '!' after.peek) after.mark
  | s => refuse (some context) (some start) (.expectedCharacter '!' s.peek) s.mark

/-- The bytes of a run of escapes by number; `fuel` bounds their number. -/
def uriBytes (context : Context) (start : Mark) :
    Nat → Source → Except Failure (List UInt8 × Source)
  | 0, s => .ok ([], s)
  | fuel + 1, s =>
    match s with
    | .more '%' _ rest =>
      match hexNumber 2 0 rest with
      | .error found => refuse (some context) (some start) (.expectedUriEscape found) rest.mark
      | .ok (n, after) => do
        let (bytes, after) ← uriBytes context start fuel after
        return (UInt8.ofNat n :: bytes, after)
    | s => .ok ([], s)

/-- The written form of a tag as far as it goes; `fuel` bounds the number of its pieces. -/
def uriPieces (context : Context) (start : Mark) : Nat → Source → Except Failure (Text × Source)
  | 0, s => .ok ([], s)
  | fuel + 1, s =>
    match s with
    | .more '%' m _ => do
      let (bytes, after) ← uriBytes context start (fuel + 1) s
      match Utf8.decode bytes with
      | .error e => refuse (some context) (some start) (.uriBytes e) m
      | .ok piece =>
        let (t, after) ← uriPieces context start fuel after
        return (piece ++ t, after)
    | .more c m rest =>
      if isUriCharacter c then do
        let (t, after) ← uriPieces context start fuel rest
        return (.char c :: t, after)
      else .ok ([], .more c m rest)
    | s => .ok ([], s)

/-- The written form of a tag, which is not empty. -/
def uri (inDirective : Bool) (start : Mark) (s : Source) : Except Failure (Text × Source) := do
  let context : Context := if inDirective then .directive else .tag
  let (t, after) ← uriPieces context start (s.length + 1) s
  if after.mark.index = s.mark.index then
    refuse (some (.uriOf inDirective)) (some start) (.expectedUri s.peek) s.mark
  else return (t, after)

/-- The text up to the next gap holds an exclamation mark. -/
def handleAhead (s : Source) : Bool :=
  (s.span fun c => c != ' ' && !isBreak c).1.contains '!'

/-- A tag: a handle and the rest of its name, or no handle when it is written in full. -/
def tagWord (s : Source) : Except Failure (Word × Source) := do
  let start := s.mark
  let inner := s.tail
  let (word, after) : Word × Source ←
    if inner.peek = some '<' then do
      let (suffix, after) ← uri false start inner.tail
      if after.peek ≠ some '>' then
        refuse (some (.uriOf false)) (some start) (.expectedCharacter '>' after.peek) after.mark
      else pure (.tag none suffix, after.tail)
    else if inner.atBlank then pure (.tag none "!", inner)
    else do
      let (handle, rest) ← if handleAhead inner then tagHandle .tag start s else pure ("!", inner)
      let (suffix, after) ← uri false start rest
      pure (.tag (some handle) suffix, after)
  if after.atGap then return (word, after)
  refuse (some .tag) (some start) (.expectedCharacter ' ' after.peek) after.mark

/-! ### Anchors and aliases -/

/-- An anchor name ends before this source. -/
def nameEnds (s : Source) : Bool :=
  s.atBlank || (s.peek.map "?:,]\x7d%@`".toList.contains).getD false

def anchorName (context : Context) (s : Source) : Except Failure (Text × Source) :=
  let (name, after) := s.tail.span isNameCharacter
  if name.isEmpty || !nameEnds after then
    refuse (some context) (some s.mark) (.expectedNameCharacter after.peek) after.mark
  else .ok (Text.ofChars name, after)

/-! ### Directives -/

/-- The number that a list of ASCII digits spells. -/
def decimalValue (digits : List Char) : Nat :=
  digits.foldl (fun n d => n * 10 + (d.toNat - '0'.toNat)) 0

def versionNumber (start : Mark) (s : Source) : Except Failure (Nat × Source) :=
  let (digits, after) := s.span fun c => '0' ≤ c && c ≤ '9'
  if digits.isEmpty then
    refuse (some .directive) (some start) (.expectedDigit s.peek) s.mark
  else if 4300 < digits.length then .error (.unconverted (.tooManyDigits digits.length))
  else .ok (decimalValue digits, after)

def versionValue (start : Mark) (s : Source) : Except Failure (Directive × Source) := do
  let (major, after) ← versionNumber start s.skipSpaces
  if after.peek ≠ some '.' then
    refuse (some .directive) (some start) (.expectedDigitOr '.' after.peek) after.mark
  else do
    let (minor, after) ← versionNumber start after.tail
    if after.atGap then return (.version major minor, after)
    refuse (some .directive) (some start) (.expectedDigitOr ' ' after.peek) after.mark

def tagValue (start : Mark) (s : Source) : Except Failure (Directive × Source) := do
  let (handle, after) ← tagHandle .directive start s.skipSpaces
  if after.peek ≠ some ' ' then
    refuse (some .directive) (some start) (.expectedCharacter ' ' after.peek) after.mark
  else do
    let (meaning, after) ← uri true start after.skipSpaces
    if after.atGap then return (.tag handle meaning, after)
    refuse (some .directive) (some start) (.expectedCharacter ' ' after.peek) after.mark

/-- A directive, the place where it stops, and the source after its line. -/
def directiveWord (s : Source) : Except Failure (Directive × Mark × Source) := do
  let start := s.mark
  let (name, after) := s.tail.span isNameCharacter
  if name.isEmpty || !after.atGap then
    refuse (some .directive) (some start) (.expectedNameCharacter after.peek) after.mark
  else do
    let (directive, stop, after) : Directive × Mark × Source ←
      if name = ['Y', 'A', 'M', 'L'] then do
        let (d, after) ← versionValue start after
        pure (d, after.mark, after)
      else if name = ['T', 'A', 'G'] then do
        let (d, after) ← tagValue start after
        pure (d, after.mark, after)
      else pure (.reserved (Text.ofChars name), after.mark, after.skip fun c => !isBreak c)
    let rest ← lineEnd .directive start after
    return (directive, stop, rest)

end Schematic.Yaml
