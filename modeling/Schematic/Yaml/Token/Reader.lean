import Schematic.Yaml.Token.Property

/-!
# Reading tokens

A reader walks through the source and puts out the words of the document. Indentation opens and
closes block collections. A word that may turn out to be a key is remembered as a candidate: at the
colon after it, the token `key` is put in front of it, and `blockMappingStart` as well if the
mapping starts here. A candidate is given up at the end of its line or after 1024 characters.

A word is ready only when no candidate stands before it. What the reader fails at is known only when
the words that are ready at this time are used up, and `Tokens` keeps that order.
-/

namespace Schematic.Yaml

/-- A word that may turn out to be a key: how many words came before it, and whether it has to be
one because of its indentation. -/
structure Candidate where
  number : Nat
  required : Bool
  mark : Mark

/-- The words of a document, and what comes after them: the end of the stream, or a failure. -/
structure Tokens where
  ready : List Token
  stop : Except Failure Mark

/-- Where a reader is. The words that it put out are held with the latest first; a candidate belongs
to a level of flow collections. -/
structure TokenReader where
  source : Source
  produced : List Token
  count : Nat
  indent : Int
  outerIndents : List Int
  flowLevel : Nat
  keyAllowed : Bool
  candidates : List (Nat × Candidate)

namespace TokenReader

def start (s : Source) : TokenReader where
  source := s
  produced := []
  count := 0
  indent := -1
  outerIndents := []
  flowLevel := 0
  keyAllowed := true
  candidates := []

/-- The reader is inside of a flow collection. -/
def inFlow (r : TokenReader) : Bool := r.flowLevel != 0

def mark (r : TokenReader) : Mark := r.source.mark

/-- Put out a word that starts and stops at given places. -/
def push (word : Word) (start stop : Mark) (r : TokenReader) : TokenReader :=
  { r with produced := ⟨word, start, stop⟩ :: r.produced, count := r.count + 1 }

/-- Put out a word that takes no room. -/
def pushEmpty (word : Word) (r : TokenReader) : TokenReader := r.push word r.mark r.mark

/-- Put out a word that takes the next `length` characters. -/
def take (word : Word) (length : Nat) (r : TokenReader) : TokenReader :=
  let rest := r.source.drop length
  { r.push word r.mark rest.mark with source := rest }

/-- Put a word in front of the ones after the first `number`. -/
def insert (number : Nat) (token : Token) (r : TokenReader) : TokenReader :=
  let later := r.count - number
  { r with
    produced := r.produced.take later ++ token :: r.produced.drop later
    count := r.count + 1 }

/-! ### Candidates -/

/-- Refuse a candidate that has to be a key. -/
def noColon (r : TokenReader) (c : Candidate) : Except Failure TokenReader :=
  refuse (some .simpleKey) (some c.mark) .noColon r.mark

/-- A candidate of another line, or too far back. -/
def isStale (r : TokenReader) (c : Candidate) : Bool :=
  c.mark.line != r.mark.line || c.mark.index + 1024 < r.mark.index

/-- Give up the candidates that cannot be keys any more. -/
def dropStale (r : TokenReader) : Except Failure TokenReader :=
  match r.candidates.find? fun c => r.isStale c.2 && c.2.required with
  | some (_, c) => r.noColon c
  | none => .ok { r with candidates := r.candidates.filter fun c => !r.isStale c.2 }

/-- Give up the candidate of the present level. -/
def dropCandidate (r : TokenReader) : Except Failure TokenReader :=
  match r.candidates.lookup r.flowLevel with
  | some c =>
    if c.required then r.noColon c
    else .ok { r with candidates := r.candidates.filter fun c => c.1 != r.flowLevel }
  | none => .ok r

/-- Remember that the next word may be a key, where keys are allowed. -/
def addCandidate (r : TokenReader) : Except Failure TokenReader := do
  if r.keyAllowed then
    let required := !r.inFlow && r.indent == r.mark.column
    let r ← r.dropCandidate
    return { r with candidates := (r.flowLevel, ⟨r.count, required, r.mark⟩) :: r.candidates }
  else return r

/-- The first word that is not ready: the earliest candidate, or the next word to come. -/
def readyCount (r : TokenReader) : Nat :=
  r.candidates.foldl (fun n c => min n c.2.number) r.count

/-! ### Indentation -/

/-- Close the given block collections as far as they are indented more than a column. -/
def closeBlocks (column : Int) : List Int → Int → TokenReader → TokenReader
  | [], indent, r => { r with indent := indent, outerIndents := [] }
  | outer :: outers, indent, r =>
    if column < indent then closeBlocks column outers outer (r.pushEmpty .blockEnd)
    else { r with indent := indent, outerIndents := outer :: outers }

/-- Close the block collections that are indented more than a column; flow collections ignore
indentation. -/
def unwind (column : Int) (r : TokenReader) : TokenReader :=
  if r.inFlow then r else closeBlocks column r.outerIndents r.indent r

/-- A block collection starts at this column. -/
def opensBlock (r : TokenReader) (column : Nat) : Bool := r.indent < column

/-- The reader inside of a block collection at a column. -/
def indentTo (column : Nat) (r : TokenReader) : TokenReader :=
  { r with indent := column, outerIndents := r.indent :: r.outerIndents }

/-- Put out the start of a block collection if one starts here. -/
def openBlock (word : Word) (r : TokenReader) : TokenReader :=
  if r.opensBlock r.mark.column then (r.indentTo r.mark.column).pushEmpty word else r

/-! ### Words -/

/-- The source from the next word on, and whether a line break came before it. -/
def nextWord (inComment broken : Bool) : Source → Bool × Source
  | .done m => (broken, .done m)
  | .more c m rest =>
    if isBreak c then nextWord false true rest
    else if inComment || c == ' ' then nextWord inComment broken rest
    else if c == '#' then nextWord true broken rest
    else (broken, .more c m rest)

/-- Skip blanks and comments. Outside of flow collections, keys are allowed on a new line. -/
def skipBlanks (r : TokenReader) : TokenReader :=
  let (broken, rest) := nextWord false false r.source
  { r with source := rest, keyAllowed := r.keyAllowed || (broken && !r.inFlow) }

def refuseHere (r : TokenReader) (problem : Problem) : Except Failure TokenReader :=
  refuse none none problem r.mark

/-- Close all blocks in front of a word that stands outside of them. -/
def leaveBlocks (r : TokenReader) : Except Failure TokenReader := do
  let r ← (r.unwind (-1)).dropCandidate
  return { r with keyAllowed := false }

def directive (r : TokenReader) : Except Failure TokenReader := do
  let r ← r.leaveBlocks
  let (d, stop, rest) ← directiveWord r.source
  return { r.push (.directive d) r.mark stop with source := rest }

def documentMarker (word : Word) (r : TokenReader) : Except Failure TokenReader := do
  return (← r.leaveBlocks).take word 3

def openFlow (word : Word) (r : TokenReader) : Except Failure TokenReader := do
  let r ← r.addCandidate
  return { r.take word 1 with flowLevel := r.flowLevel + 1, keyAllowed := true }

/-- A closing bracket; one too many is left to the grammar. -/
def closeFlow (word : Word) (r : TokenReader) : Except Failure TokenReader := do
  let r ← r.dropCandidate
  return { r.take word 1 with flowLevel := r.flowLevel - 1, keyAllowed := false }

def flowEntry (r : TokenReader) : Except Failure TokenReader := do
  let r ← r.dropCandidate
  return { r.take .flowEntry 1 with keyAllowed := true }

def blockEntry (r : TokenReader) : Except Failure TokenReader := do
  if !r.inFlow && !r.keyAllowed then r.refuseHere .entryNotAllowed
  else
    let r := if r.inFlow then r else r.openBlock .blockSequenceStart
    let r ← r.dropCandidate
    return { r.take .blockEntry 1 with keyAllowed := true }

/-- A question mark before a key. -/
def key (r : TokenReader) : Except Failure TokenReader := do
  if !r.inFlow && !r.keyAllowed then r.refuseHere .keyNotAllowed
  else
    let r := if r.inFlow then r else r.openBlock .blockMappingStart
    let r ← r.dropCandidate
    return { r.take .key 1 with keyAllowed := !r.inFlow }

/-- A colon after a candidate, which becomes a key. -/
def valueOf (c : Candidate) (r : TokenReader) : TokenReader :=
  let r := { r with candidates := r.candidates.filter fun c => c.1 != r.flowLevel }
  let r := r.insert c.number ⟨.key, c.mark, c.mark⟩
  let r :=
    if !r.inFlow && r.opensBlock c.mark.column then
      (r.indentTo c.mark.column).insert c.number ⟨.blockMappingStart, c.mark, c.mark⟩
    else r
  { r.take .value 1 with keyAllowed := false }

def value (r : TokenReader) : Except Failure TokenReader := do
  match r.candidates.lookup r.flowLevel with
  | some c => return r.valueOf c
  | none =>
    if !r.inFlow && !r.keyAllowed then r.refuseHere .valueNotAllowed
    else
      let r := if r.inFlow then r else r.openBlock .blockMappingStart
      let r ← r.dropCandidate
      return { r.take .value 1 with keyAllowed := !r.inFlow }

/-- A word that may be a key or belong to one. -/
def keyWord (read : Source → Except Failure (Word × Source)) (r : TokenReader) :
    Except Failure TokenReader := do
  let r ← r.addCandidate
  let (word, rest) ← read r.source
  return { r.push word r.mark rest.mark with source := rest, keyAllowed := false }

def anchorWord (context : Context) (word : Text → Word) (s : Source) :
    Except Failure (Word × Source) := do
  let (name, rest) ← anchorName context s
  return (word name, rest)

def quotedWord (double : Bool) (s : Source) : Except Failure (Word × Source) := do
  let (content, rest) ← quotedScalar double s
  return (.scalar content false, rest)

def blockScalar (isFolded : Bool) (r : TokenReader) : Except Failure TokenReader := do
  let r ← r.dropCandidate
  let (content, rest) ← Yaml.blockScalar isFolded r.indent r.source
  return { r.push (.scalar content false) r.mark rest.mark with source := rest, keyAllowed := true }

def plainScalar (r : TokenReader) : Except Failure TokenReader := do
  let r ← r.addCandidate
  let found := Yaml.plainScalar r.inFlow (r.indent + 1) r.source
  return { r.push (.scalar (Text.ofChars found.content) true) r.mark found.stop with
    source := found.rest, keyAllowed := found.broken }

/-- A plain scalar may start with a character before a source. -/
def startsPlain (inFlow : Bool) (c : Char) (rest : Source) : Bool :=
  if isSpaceOrTab c || isBreak c then false
  else if c = '-' then !rest.atBlank
  else if c = '?' ∨ c = ':' then !inFlow && !rest.atBlank
  else !",[]\x7b\x7d#&*!|>'\"%@`".toList.contains c

/-- The next word, whose first character is `c`. -/
def word (c : Char) (rest : Source) (r : TokenReader) : Except Failure TokenReader :=
  let atLineStart := r.mark.column == 0
  if c = '%' ∧ atLineStart then r.directive
  else if atLineStart ∧ r.source.atTriple '-' then r.documentMarker .documentStart
  else if atLineStart ∧ r.source.atTriple '.' then r.documentMarker .documentEnd
  else if c = '[' then r.openFlow .flowSequenceStart
  else if c = '\x7b' then r.openFlow .flowMappingStart
  else if c = ']' then r.closeFlow .flowSequenceEnd
  else if c = '\x7d' then r.closeFlow .flowMappingEnd
  else if c = ',' then r.flowEntry
  else if c = '-' ∧ rest.atBlank then r.blockEntry
  else if c = '?' ∧ (r.inFlow || rest.atBlank) then r.key
  else if c = ':' ∧ (r.inFlow || rest.atBlank) then r.value
  else if c = '*' then r.keyWord (anchorWord .alias .alias)
  else if c = '&' then r.keyWord (anchorWord .anchor .anchor)
  else if c = '!' then r.keyWord tagWord
  else if c = '|' ∧ !r.inFlow then r.blockScalar false
  else if c = '>' ∧ !r.inFlow then r.blockScalar true
  else if c = '\'' then r.keyWord (quotedWord false)
  else if c = '"' then r.keyWord (quotedWord true)
  else if startsPlain r.inFlow c rest then r.plainScalar
  else refuse (some .nextToken) none (.noToken c) r.mark

/-- Read the next word, or nothing at the end of the source. -/
def step (r : TokenReader) : Except Failure (Option TokenReader) := do
  let r ← r.skipBlanks.dropStale
  let r := r.unwind r.mark.column
  match r.source with
  | .done _ => return none
  | .more c _ rest => return some (← (← r.word c rest).dropStale)

/-- Close what is open at the end of the source. -/
def finish (r : TokenReader) : Except Failure TokenReader := do
  let r ← r.skipBlanks.dropStale
  (r.unwind (-1)).dropCandidate

/-- The words up to a failure, of which those from a candidate on are not ready. -/
def stopped (r : TokenReader) (failure : Failure) : Tokens :=
  ⟨r.produced.reverse.take r.readyCount, .error failure⟩

/-- Read all words; `fuel` bounds their number. -/
def run : Nat → TokenReader → Tokens
  | 0, r => ⟨r.produced.reverse, .ok r.mark⟩
  | fuel + 1, r =>
    match r.step with
    | .error failure => r.stopped failure
    | .ok (some r) => run fuel r
    | .ok none =>
      match r.finish with
      | .error failure => r.stopped failure
      | .ok r => ⟨r.produced.reverse, .ok r.mark⟩

end TokenReader

/-- The words of a source. -/
def Tokens.ofSource (s : Source) : Tokens := (TokenReader.start s).run (s.length + 1)

/-- The next token; past the last one there is the end of the stream. -/
def Tokens.peek (ts : Tokens) : Except Failure Token :=
  match ts.ready with
  | t :: _ => .ok t
  | [] => ts.stop.map fun m => ⟨.streamEnd, m, m⟩

def Tokens.tail (ts : Tokens) : Tokens := { ts with ready := ts.ready.tail }

end Schematic.Yaml
