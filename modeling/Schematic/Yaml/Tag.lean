import Schematic.Yaml.Timestamp

/-!
# Tags

A tag says what a node is. A plain scalar without a tag gets one by its spelling: words for null and
for truth, numbers in several notations, timestamps, and two words with a meaning in mappings.
-/

namespace Schematic.Yaml

/-- What a node is. -/
inductive Tag where
  | null
  | bool
  | int
  | float
  | binary
  | timestamp
  | orderedMap
  | pairs
  | set
  | text
  | sequence
  | mapping
  | merge
  | value
  | other (name : Text)
  deriving DecidableEq

namespace Tag

def commonStart : Text := "tag:yaml.org,2002:"

/-- The common tags with the ends of their names. -/
def common : List (Text × Tag) :=
  [("null", .null), ("bool", .bool), ("int", .int), ("float", .float), ("binary", .binary),
    ("timestamp", .timestamp), ("omap", .orderedMap), ("pairs", .pairs), ("set", .set),
    ("str", .text), ("seq", .sequence), ("map", .mapping), ("merge", .merge), ("value", .value)]

def ofName (name : Text) : Tag :=
  ((common.find? fun e => commonStart ++ e.1 == name).map (·.2)).getD (.other name)

def name : Tag → Text
  | .other name => name
  | tag => commonStart ++ ((common.find? fun e => e.2 == tag).map (·.1)).getD []

/-! ### Spellings -/

def isWord (words : List String) (t : Text) : Bool := words.any fun w => t == Text.ofString w

/-- The words for null; an empty scalar is one of them. -/
def isNull (t : Text) : Bool := t.isEmpty || isWord ["~", "null", "Null", "NULL"] t

/-- The words for truth values. -/
def isBool (t : Text) : Bool :=
  isWord ["yes", "Yes", "YES", "no", "No", "NO", "true", "True", "TRUE", "false", "False", "FALSE",
    "on", "On", "ON", "off", "Off", "OFF"] t

/-- The text after a sign, if there is one. -/
def unsigned : Text → Text
  | .char '+' :: rest | .char '-' :: rest => rest
  | t => t

/-- A digit, or an underscore within a number. -/
def isDigitOrUnderscore (c : CodePoint) : Bool := c.isDigit || c == .char '_'

/-- A digit, and then digits and underscores. -/
def isGrouped : Text → Bool
  | c :: rest => c.isDigit && rest.all isDigitOrUnderscore
  | [] => false

/-- A nonempty text of hexadecimal digits below a base, and underscores. -/
def isBased (base : Nat) (t : Text) : Bool :=
  !t.isEmpty && t.all fun c =>
    c == .char '_' || (c.hexDigit?.map fun d => decide (d < base)).getD false

/-- One digit, or two of which the first is below six. -/
def isSixtieth : Text → Bool
  | [c] => c.isDigit
  | [c, d] => c.within '0' '5' && d.isDigit
  | _ => false

/-- A digit that is not zero at the start. -/
def startsPositive : Text → Bool
  | c :: _ => c.within '1' '9'
  | [] => false

/-- The notations of integers: binary, octal, decimal, hexadecimal, and in base sixty. -/
def isInt (t : Text) : Bool :=
  match unsigned t with
  | .char '0' :: rest =>
    match rest with
    | [] => true
    | .char 'b' :: digits => isBased 2 digits
    | .char 'x' :: digits => isBased 16 digits
    | digits => isBased 8 digits
  | body =>
    match Text.splitAll (.char ':') body with
    | first :: sixtieths =>
      startsPositive first && isGrouped first && sixtieths.all isSixtieth
    | [] => false

/-- An exponent with its sign, or nothing. -/
def isExponent : Text → Bool
  | [] => true
  | e :: sign :: digits =>
    e.isOneOf "eE" && sign.isOneOf "+-" && !digits.isEmpty && digits.all CodePoint.isDigit
  | _ => false

/-- A fraction after its point, perhaps with an exponent. -/
def isFraction (t : Text) : Bool := isExponent (t.dropWhile isDigitOrUnderscore)

/-- The notations of floating-point numbers, which all have a point. -/
def isFloat (t : Text) : Bool :=
  match Text.splitFirst? (.char '.') t with
  | none => false
  | some (before, after) =>
    if isWord ["", "+", "-"] before ∧ isWord ["inf", "Inf", "INF"] after then true
    else if before.isEmpty then
      isWord ["nan", "NaN", "NAN"] after || (isGrouped (after.take 1) && isFraction after)
    else
      match Text.splitAll (.char ':') (unsigned before) with
      | [whole] => isGrouped whole && isFraction after
      | whole :: sixtieths =>
        isGrouped whole && sixtieths.all isSixtieth && after.all isDigitOrUnderscore
      | [] => false

def isTimestamp (t : Text) : Bool := ((Timestamp.read? t).map Timestamp.isImplicit).getD false

/-- The tag that a plain scalar gets by its spelling. A line feed at its end is let pass. -/
def ofPlain (t : Text) : Tag :=
  let body := if 1 < t.length ∧ t.getLast? = some (.char '\n') then t.dropLast else t
  if isBool body then .bool
  else if isFloat body then .float
  else if isInt body then .int
  else if isWord ["<<"] body then .merge
  else if isNull body then .null
  else if isTimestamp t then .timestamp
  else if isWord ["="] body then .value
  else if isWord ["!", "&", "*"] body then .other (commonStart ++ "yaml")
  else .text

end Tag

end Schematic.Yaml
