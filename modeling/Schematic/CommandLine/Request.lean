import Schematic.CommandLine.Grammar
import Schematic.Text.Digit

/-!
# Requests

Reading the words of a command line. A word is a flag, the value of a flag, or fills the slot of the
grammar. Flags may be shortened as long as they stay distinct, a value may follow a flag after an
equals sign, and after a word `--` no word is a flag. What remains is told once all other faults are
excluded.
-/

namespace Schematic.CommandLine

/-- What to render, and how. -/
structure RenderRequest where
  component : Text
  params : List Text
  format : Option Text
  output : Option Text
  deriving DecidableEq

/-- What the program is to do. -/
inductive Request where
  | render (r : RenderRequest)
  | gvk (value : Text)
  deriving DecidableEq

/-! ### Words -/

/-- A value that is part of a flag's own word. -/
structure GivenValue where
  text : Text
  /-- An equals sign parts the flag from the value. -/
  afterEquals : Bool
  deriving DecidableEq

inductive WordKind where
  | separator
  | value
  | unknownFlag
  | flag (name : Text) (f : Flag) (given : Option GivenValue)
  deriving DecidableEq

/-- The text is a minus sign with a decimal number. A line feed at its end is let pass. -/
def isNegativeNumber (word : Text) : Bool :=
  let isDigit (c : CodePoint) : Bool := c.digit?.isSome
  let body := if word.getLast? = some (.char '\n') then word.dropLast else word
  match body with
  | .char '-' :: number =>
    let whole := number.takeWhile isDigit
    match number.dropWhile isDigit with
    | [] => !whole.isEmpty
    | .char '.' :: fraction => !fraction.isEmpty && fraction.all isDigit
    | _ => false
  | _ => false

def Grammar.flagNames (g : Grammar) : List (Text × Flag) :=
  g.flags.flatMap fun f => f.names.map ((·, f))

def Grammar.flag? (g : Grammar) (name : Text) : Option Flag :=
  (g.flagNames.find? fun e => e.1 == name).map (·.2)

/-- A word as the name of a flag and a value after an equals sign. -/
def nameAndValue (word : Text) : Text × Option GivenValue :=
  match Text.splitFirst? (.char '=') word with
  | some (name, value) => (name, some ⟨value, true⟩)
  | none => (word, none)

/-- The flags that a word may be short for: with two dashes a beginning of the name, with one dash a
single letter, after which a value may stand. -/
def Grammar.candidates (g : Grammar) (word : Text) : List (Text × Flag × Option GivenValue) :=
  if word.startsWith "--" then
    let (start, given) := nameAndValue word
    (g.flagNames.filter fun e => e.1.startsWith start).map fun e => (e.1, e.2, given)
  else
    (g.flagNames.filter fun e => e.1 == word.take 2).map fun e =>
      (e.1, e.2, some ⟨word.drop 2, false⟩)

def Grammar.dashed (g : Grammar) (word : Text) : Except Stop WordKind :=
  let (name, given) := nameAndValue word
  match g.flag? word, g.flag? name with
  | some f, _ => .ok (.flag word f none)
  | none, some f => .ok (.flag name f given)
  | none, none =>
    match g.candidates word with
    | [(name, f, given)] => .ok (.flag name f given)
    | [] =>
      if isNegativeNumber word || word.contains (.char ' ') then .ok .value else .ok .unknownFlag
    | several => .error (.misuse g (.ambiguous word (several.map (·.1))))

def Grammar.wordKind (g : Grammar) (word : Text) : Except Stop WordKind :=
  if word.startsWith "-" ∧ 1 < word.length then g.dashed word else .ok .value

/-- What the words of a command line are. -/
def Grammar.words (g : Grammar) : List Text → Except Stop (List (Text × WordKind))
  | [] => .ok []
  | word :: rest =>
    if word = Text.ofString "--" then
      .ok ((word, .separator) :: rest.map fun value => (value, .value))
    else do
      let kind ← g.wordKind word
      let kinds ← g.words rest
      return (word, kind) :: kinds

/-! ### Slots and flags -/

/-- What the words of a command line give to a grammar. -/
structure Filling where
  /-- The words in the slot. -/
  slot : Option (List Text) := none
  /-- The values of flags, in order. -/
  settings : List (Flag × Text) := []
  /-- The words that have no place. -/
  extras : List Text := []

/-- The value of a flag is one of the fixed ones, if there are such. -/
def checkChoice (g : Grammar) (f : Flag) (value : Text) : Except Stop Unit :=
  match f.choices? with
  | none => .ok ()
  | some choices =>
    if choices.contains value then .ok ()
    else .error (.misuse g (.noChoice f.label value choices))

/-- The part of a value that a flag without value cannot take. Behind a single letter the same
letter may come again, and other letters are passed over. -/
def excess? : Text → Option Text
  | [] => none
  | .char 'h' :: .char '=' :: rest => some rest
  | .char 'h' :: rest => excess? rest
  | .char '-' :: rest => some (.char '-' :: rest)
  | _ => none

/-- What comes of the flag for help. -/
def helpStop (g : Grammar) (name : Text) (given : Option GivenValue) : Stop :=
  let excess : Option Text :=
    match given with
    | none => none
    | some value =>
      if value.afterEquals ∨ name.startsWith "--" then some value.text else excess? value.text
  match excess with
  | some text => .misuse g (.ignored .help text)
  | none => .help g

/-- Fill the slot and the flags of a grammar, word by word. -/
def Grammar.fill (g : Grammar) : List (Text × WordKind) → Filling → Except Stop Filling
  | [], p => .ok p
  | (word, .unknownFlag) :: rest, p => g.fill rest { p with extras := p.extras ++ [word] }
  | (_, .flag name .help given) :: _, _ => .error (helpStop g name given)
  | (_, .flag _ f (some value)) :: rest, p => do
    checkChoice g f value.text
    g.fill rest { p with settings := p.settings ++ [(f, value.text)] }
  | (_, .flag _ f none) :: (value, .value) :: rest, p => do
    checkChoice g f value
    g.fill rest { p with settings := p.settings ++ [(f, value)] }
  | (_, .flag _ f none) :: _, _ => .error (.misuse g (.expectedValue f))
  | (separator, .separator) :: (word, .value) :: rest, p =>
    match p.slot, g.slot with
    | none, .command =>
      .ok { p with slot := some (separator :: word :: rest.map (·.1)) }
    | none, _ => g.fill rest { p with slot := some [word] }
    | some _, _ => g.fill rest { p with extras := p.extras ++ [separator, word] }
  | (separator, .separator) :: rest, p =>
    g.fill rest { p with extras := p.extras ++ [separator] }
  | (word, .value) :: rest, p =>
    match p.slot, g.slot, rest with
    | none, .command, rest => .ok { p with slot := some (word :: rest.map (·.1)) }
    | none, _, (_, .separator) :: rest => g.fill rest { p with slot := some [word] }
    | none, _, rest => g.fill rest { p with slot := some [word] }
    | some _, _, rest => g.fill rest { p with extras := p.extras ++ [word] }

/-- The words in the slot of a grammar and all else that a command line gives to it. -/
def Grammar.read (g : Grammar) (line : List Text) : Except Stop (List Text × Filling) := do
  let words ← g.words line
  let p ← g.fill words {}
  match p.slot with
  | some slot => return (slot, p)
  | none => throw (.misuse g (.required g.slot))

/-! ### Requests -/

/-- The last value that is set for a flag. -/
def Filling.last? (p : Filling) (f : Flag) : Option Text :=
  ((p.settings.filter fun s => s.1 = f).getLast?).map (·.2)

/-- The values that are set for a flag. -/
def Filling.all (p : Filling) (f : Flag) : List Text :=
  (p.settings.filter fun s => s.1 = f).map (·.2)

/-- The request that words of the slot of a command and its flags make. -/
def Filling.request (command : Grammar) (slot : List Text) (p : Filling) : Request :=
  let word := (slot.head?).getD []
  match command with
  | .gvk => .gvk word
  | _ => .render ⟨word, p.all .param, p.last? .format, p.last? .output⟩

def command (name : Text) : Except Stop Grammar :=
  match Grammar.commands.find? fun g => g.name == name with
  | some g => .ok g
  | none =>
    .error (.misuse .program
      (.noChoice Slot.command.label name (Grammar.commands.map Grammar.name)))

/-- The request of a command line. -/
def request (line : List Text) : Except Stop Request := do
  let (slot, outer) ← Grammar.program.read line
  let g ← command ((slot.head?).getD [])
  let (inner, p) ← g.read (slot.drop 1)
  match outer.extras ++ p.extras with
  | [] => return p.request g inner
  | words => throw (.misuse .program (.unrecognized words))

end Schematic.CommandLine
