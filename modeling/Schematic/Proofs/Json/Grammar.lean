import Schematic.Json.Reader
import Schematic.Proofs.Double.Layout

/-!
# The grammar of JSON

A document as a tree of spelled parts. Each part carries the conditions on its spelling, so that the
texts of trees are the texts of the grammar. Blanks may stand around all parts, a number may spell
its exponent in several ways, and a code point of a text may be escaped. An escape by number stands
for a code point, alone or together with a second one: there is no part for the escape of a single
half of a surrogate pair.
-/

namespace Schematic.Json

open Numeral (signText fractionText)

/-- Blanks between the parts of a document. -/
abbrev Blanks := { t : Text // ∀ c ∈ t, isSpace c = true }

/-! ### Numbers -/

/-- The exponent of a number: a letter, perhaps a sign, and digits. The sign tells whether it is a
minus. -/
structure Exponent where
  upper : Bool
  sign : Option Bool
  digits : Text
  digits_ne_nil : digits ≠ []
  digits_isDigits : digits.IsDigits

namespace Exponent

def signText : Option Bool → Text
  | none => []
  | some negative => [if negative then .char '-' else .char '+']

def text (x : Exponent) : Text :=
  (if x.upper then .char 'E' else .char 'e') :: (signText x.sign ++ x.digits)

def value (x : Exponent) : Int := exponentValue (x.sign.getD false) x.digits

/-- The text of an exponent that may be left out. -/
def optionText : Option Exponent → Text
  | none => []
  | some x => x.text

end Exponent

/-- A number as it is spelled. -/
structure Literal where
  negative : Bool
  whole : Text
  fraction : Option Text
  exponent : Option Exponent
  isProper : (Numeral.mk negative whole fraction (exponent.map Exponent.value)).IsProper

namespace Literal

def numeral (l : Literal) : Numeral :=
  ⟨l.negative, l.whole, l.fraction, l.exponent.map Exponent.value⟩

/-- The text of a number after its sign. -/
def body (l : Literal) : Text :=
  l.whole ++ (fractionText l.fraction ++ Exponent.optionText l.exponent)

def text (l : Literal) : Text := signText l.negative ++ l.body

/-- An integer has at most 4300 digits. -/
def IsShort (l : Literal) : Prop := l.numeral.isWhole = true → l.whole.length ≤ maxDigits

/-- The whole part of a number has at most 4300 digits, whether the number is an integer or not. -/
def HasShortWhole (l : Literal) : Prop := l.whole.length ≤ maxDigits

lemma HasShortWhole.isShort {l : Literal} (h : l.HasShortWhole) : l.IsShort := fun _ => h

end Literal

/-! ### Texts -/

/-- A unit of 16 bits, spelled by four hexadecimal digits. -/
structure SpelledUnit where
  digits : Text
  number : Nat
  length_digits : digits.length = 4
  hex4?_digits : hex4? digits = some number

/-- A code point between quotes: it stands for itself, or it is escaped by a letter, by its number,
or by the numbers of a surrogate pair. -/
inductive Piece where
  | plain (c : CodePoint) (h : 0x20 ≤ c.value ∧ c ≠ .char '"' ∧ c ≠ .char '\\')
  | letter (c d : CodePoint) (h : simpleEscape? c = some d)
  | unit (u : SpelledUnit) (h : isHighHalf u.number = false ∧ isLowHalf u.number = false)
  | pair (high low : SpelledUnit) (h : isHighHalf high.number = true ∧ isLowHalf low.number = true)

namespace Piece

/-- The text of a code point between quotes. -/
def text : Piece → Text
  | plain c _ => [c]
  | letter c _ _ => [.char '\\', c]
  | unit u _ => .char '\\' :: .char 'u' :: u.digits
  | pair high low _ =>
    .char '\\' :: .char 'u' :: (high.digits ++ .char '\\' :: .char 'u' :: low.digits)

def codePoint : Piece → CodePoint
  | plain c _ => c
  | letter _ d _ => d
  | unit u _ => point u.number
  | pair high low _ => point (joinHalves high.number low.number)

end Piece

def quoted (pieces : List Piece) : Text :=
  .char '"' :: (pieces.flatMap Piece.text ++ [.char '"'])

/-- The text that is spelled between quotes. -/
def content (pieces : List Piece) : Text := pieces.map Piece.codePoint

/-- The name of an entry, with the blanks around the colon after it. -/
structure Name where
  pieces : List Piece
  after : Blanks
  before : Blanks

def Name.text (n : Name) : Text := quoted n.pieces ++ (n.after.val ++ .char ':' :: n.before.val)

/-! ### Values -/

mutual

/-- A value as it is spelled. -/
inductive Spelling where
  | null
  | bool (b : Bool)
  | number (l : Literal)
  | text (pieces : List Piece)
  | emptyArray (blanks : Blanks)
  | array (before : Blanks) (items : Items)
  | emptyObject (blanks : Blanks)
  | object (before : Blanks) (members : Members)

/-- The items of an array, with the blanks after each of them and after each comma. -/
inductive Items where
  | last (item : Spelling) (after : Blanks)
  | more (item : Spelling) (after before : Blanks) (rest : Items)

/-- The entries of an object, with the blanks after each of them and after each comma. -/
inductive Members where
  | last (name : Name) (value : Spelling) (after : Blanks)
  | more (name : Name) (value : Spelling) (after before : Blanks) (rest : Members)

end

mutual

def Spelling.toText : Spelling → Text
  | .null => "null"
  | .bool true => "true"
  | .bool false => "false"
  | .number l => l.text
  | .text pieces => quoted pieces
  | .emptyArray blanks => .char '[' :: (blanks.val ++ [.char ']'])
  | .array before items => .char '[' :: (before.val ++ items.toText)
  | .emptyObject blanks => .char '\x7b' :: (blanks.val ++ [.char '\x7d'])
  | .object before members => .char '\x7b' :: (before.val ++ members.toText)

/-- The text of items up to the closing bracket. -/
def Items.toText : Items → Text
  | .last item after => item.toText ++ (after.val ++ [.char ']'])
  | .more item after before rest =>
    item.toText ++ (after.val ++ .char ',' :: (before.val ++ rest.toText))

/-- The text of entries up to the closing brace. -/
def Members.toText : Members → Text
  | .last name value after => name.text ++ (value.toText ++ (after.val ++ [.char '\x7d']))
  | .more name value after before rest =>
    name.text ++ (value.toText ++ (after.val ++ .char ',' :: (before.val ++ rest.toText)))

end

mutual

/-- The data that is spelled. Of several entries of one name the last one counts. -/
def Spelling.toJson : Spelling → Json
  | .null => .null
  | .bool b => .bool b
  | .number l => l.numeral.value
  | .text pieces => .text (content pieces)
  | .emptyArray _ => .array []
  | .array _ items => .array items.toJsons
  | .emptyObject _ => .object []
  | .object _ members => .object (bindAll members.toEntries)

def Items.toJsons : Items → List Json
  | .last item _ => [item.toJson]
  | .more item _ _ rest => item.toJson :: rest.toJsons

/-- The entries that are spelled, one after another. -/
def Members.toEntries : Members → List (Text × Json)
  | .last name value _ => [(content name.pieces, value.toJson)]
  | .more name value _ _ rest => (content name.pieces, value.toJson) :: rest.toEntries

end

mutual

/-- How deep collections are nested. -/
def Spelling.depth : Spelling → Nat
  | .null | .bool _ | .number _ | .text _ => 0
  | .emptyArray _ | .emptyObject _ => 1
  | .array _ items => items.depth + 1
  | .object _ members => members.depth + 1

/-- How deep the collections among some items are nested. -/
def Items.depth : Items → Nat
  | .last item _ => item.depth
  | .more item _ _ rest => max item.depth rest.depth

/-- How deep the collections in some entries are nested. -/
def Members.depth : Members → Nat
  | .last _ value _ => value.depth
  | .more _ value _ _ rest => max value.depth rest.depth

end

mutual

/-- A property holds of all numbers in a value. -/
def Spelling.EveryNumber (p : Literal → Prop) : Spelling → Prop
  | .number l => p l
  | .array _ items => items.EveryNumber p
  | .object _ members => members.EveryNumber p
  | .null | .bool _ | .text _ | .emptyArray _ | .emptyObject _ => True

def Items.EveryNumber (p : Literal → Prop) : Items → Prop
  | .last item _ => item.EveryNumber p
  | .more item _ _ rest => item.EveryNumber p ∧ rest.EveryNumber p

/-- A property holds of all numbers in some entries. -/
def Members.EveryNumber (p : Literal → Prop) : Members → Prop
  | .last _ value _ => value.EveryNumber p
  | .more _ value _ _ rest => value.EveryNumber p ∧ rest.EveryNumber p

end

mutual

/-- A property of all numbers of a spelling may be weakened. -/
lemma Spelling.EveryNumber.imp {p q : Literal → Prop} (hpq : ∀ l, p l → q l) (s : Spelling)
    (h : s.EveryNumber p) : s.EveryNumber q := by
  match s with
  | .number l => exact hpq l h
  | .array _ items => exact Items.EveryNumber.imp hpq items h
  | .object _ members => exact Members.EveryNumber.imp hpq members h
  | .null | .bool _ | .text _ | .emptyArray _ | .emptyObject _ => trivial

/-- A property of all numbers of items may be weakened. -/
lemma Items.EveryNumber.imp {p q : Literal → Prop} (hpq : ∀ l, p l → q l) (is : Items)
    (h : is.EveryNumber p) : is.EveryNumber q := by
  match is with
  | .last item _ => exact Spelling.EveryNumber.imp hpq item h
  | .more item _ _ rest =>
    exact ⟨Spelling.EveryNumber.imp hpq item h.1, Items.EveryNumber.imp hpq rest h.2⟩

/-- A property of all numbers of members may be weakened. -/
lemma Members.EveryNumber.imp {p q : Literal → Prop} (hpq : ∀ l, p l → q l) (ms : Members)
    (h : ms.EveryNumber p) : ms.EveryNumber q := by
  match ms with
  | .last _ value _ => exact Spelling.EveryNumber.imp hpq value h
  | .more _ value _ _ rest =>
    exact ⟨Spelling.EveryNumber.imp hpq value h.1, Members.EveryNumber.imp hpq rest h.2⟩

end

def Members.names : Members → List Name
  | .last name _ _ => [name]
  | .more name _ _ _ rest => name :: rest.names

mutual

/-- Properties hold of all numbers, of all texts that are values, and of all objects in a value. -/
def Spelling.Each (number : Literal → Prop) (text : List Piece → Prop) (object : Members → Prop) :
    Spelling → Prop
  | .number l => number l
  | .text ps => text ps
  | .array _ items => items.Each number text object
  | .object _ members => object members ∧ members.Each number text object
  | .null | .bool _ | .emptyArray _ | .emptyObject _ => True

def Items.Each (number : Literal → Prop) (text : List Piece → Prop) (object : Members → Prop) :
    Items → Prop
  | .last item _ => item.Each number text object
  | .more item _ _ rest => item.Each number text object ∧ rest.Each number text object

/-- Properties hold of all numbers, texts and objects in the values of some entries. -/
def Members.Each (number : Literal → Prop) (text : List Piece → Prop) (object : Members → Prop) :
    Members → Prop
  | .last _ value _ => value.Each number text object
  | .more _ value _ _ rest => value.Each number text object ∧ rest.Each number text object

end

/-- The names of some entries are spelled for different texts. -/
def Members.HaveDistinctNames (ms : Members) : Prop :=
  (ms.names.map fun n => content n.pieces).Nodup

/-- No object in a value repeats a name. -/
def Spelling.HasDistinctNames (s : Spelling) : Prop :=
  s.Each (fun _ => True) (fun _ => True) Members.HaveDistinctNames

/-- A value with the blanks around it. -/
structure Document where
  before : Blanks
  spelling : Spelling
  after : Blanks

namespace Document

def toText (d : Document) : Text := d.before.val ++ (d.spelling.toText ++ d.after.val)

def toJson (d : Document) : Json := d.spelling.toJson

/-- How deep the collections of a document are nested. -/
def depth (d : Document) : Nat := d.spelling.depth

def EveryNumber (p : Literal → Prop) (d : Document) : Prop := d.spelling.EveryNumber p

end Document

end Schematic.Json
