import Schematic.Component

/-!
# Problems of documents

What is wrong with a value that should be a component or a part of one: a place and a cause for each
fault. The faults of all parts are collected, in the order of the fields and depth first, so that
one reading tells all of them.
-/

namespace Schematic

/-- One step of the path to a fault. -/
inductive PathStep where
  | name (t : Text)
  | index (i : Int)
  deriving DecidableEq

/-- What a value was read from, which decides how messages speak of collections. -/
inductive Dialect where
  /-- A value in memory. -/
  | values
  /-- JSON text. -/
  | jsonText
  deriving DecidableEq

/-- What is wrong with a part of a value. -/
inductive Cause where
  | missing
  | notText
  | notUnicode
  | notInteger
  | tooSmall
  | tooGreat
  | notBoolean
  | unclearBoolean
  | notOneOf (tokens : List Text)
  | notList (dialect : Dialect)
  | notRecord (dialect : Dialect) (name : Text)
  | notMap
  | notBody
  | keyNotText
  | frozen
  | malformedJson (reason : Text)
  | unreadableBody
  deriving DecidableEq

/-- A fault at a place. -/
structure Problem where
  path : List PathStep
  cause : Cause
  deriving DecidableEq

/-- Choices between quotes, with an `or` before the last one. -/
def choicesText (tokens : List Text) : Text :=
  let quote (t : Text) : Text := "'" ++ t ++ "'"
  match tokens.reverse with
  | [] => []
  | [t] => quote t
  | last :: before => Text.join ", " (before.reverse.map quote) ++ " or " ++ quote last

namespace Cause

/-- The short name of a cause. -/
def code : Cause → Text
  | .missing => "missing"
  | .notText => "string_type"
  | .notUnicode => "string_unicode"
  | .notInteger => "int_type"
  | .tooSmall => "greater_than_equal"
  | .tooGreat => "less_than_equal"
  | .notBoolean => "bool_type"
  | .unclearBoolean => "bool_parsing"
  | .notOneOf _ => "enum"
  | .notList _ => "list_type"
  | .notRecord _ _ => "model_type"
  | .notMap => "dict_type"
  | .notBody => "model_attributes_type"
  | .keyNotText => "invalid_key"
  | .frozen => "frozen_instance"
  | .malformedJson _ | .unreadableBody => "json_invalid"

def message : Cause → Text
  | .missing => "Field required"
  | .notText => "Input should be a valid string"
  | .notUnicode => "Input should be a valid string, unable to parse raw data as a unicode string"
  | .notInteger => "Input should be a valid integer"
  | .tooSmall => "Input should be greater than or equal to -2147483648"
  | .tooGreat => "Input should be less than or equal to 2147483647"
  | .notBoolean => "Input should be a valid boolean"
  | .unclearBoolean => "Input should be a valid boolean, unable to interpret input"
  | .notOneOf tokens => "Input should be " ++ choicesText tokens
  | .notList .values => "Input should be a valid list"
  | .notList .jsonText => "Input should be a valid array"
  | .notRecord .values name => "Input should be a valid dictionary or instance of " ++ name
  | .notRecord .jsonText _ => "Input should be an object"
  | .notMap => "Input should be a valid dictionary"
  | .notBody => "Input should be a valid dictionary or object to extract fields from"
  | .keyNotText => "Keys should be strings"
  | .frozen => "Instance is frozen"
  | .malformedJson reason => "Invalid JSON: " ++ reason
  | .unreadableBody => "JSON decode error"

end Cause

def PathStep.text : PathStep → Text
  | .name t => t
  | .index i => Text.ofInt i

namespace Problem

/-- The place of a problem, as the steps of its path between points. -/
def place (p : Problem) : Text :=
  match Text.join "." (p.path.map PathStep.text) with
  | [] => "<root>"
  | place => place

def text (p : Problem) : Text := p.place ++ ": " ++ p.cause.message

/-- A problem seen from one step further out. -/
def under (step : PathStep) (p : Problem) : Problem := { p with path := step :: p.path }

end Problem

/-! ### Checked values -/

/-- A value, or the problems that keep it from being one. -/
inductive Checked (α : Type) where
  | valid (a : α)
  | invalid (problems : List Problem)

namespace Checked

variable {α β : Type}

/-- Apply a function to a valid value. -/
def map (f : α → β) : Checked α → Checked β
  | .valid a => .valid (f a)
  | .invalid ps => .invalid ps

/-- Apply a checked function to a checked value; the problems of the function come first. -/
def apply : Checked (α → β) → Checked α → Checked β
  | .valid f, .valid a => .valid (f a)
  | .valid _, .invalid ps => .invalid ps
  | .invalid ps, .valid _ => .invalid ps
  | .invalid ps, .invalid qs => .invalid (ps ++ qs)

instance : Applicative Checked where
  pure := .valid
  map := map
  seq f a := f.apply (a ())

/-- A value with a single problem at its own place. -/
def fail (cause : Cause) : Checked α := .invalid [⟨[], cause⟩]

/-- The same, with the problems seen from one step further out. -/
def under (step : PathStep) : Checked α → Checked α
  | .valid a => .valid a
  | .invalid ps => .invalid (ps.map (·.under step))

def list : List (Checked α) → Checked (List α)
  | [] => .valid []
  | a :: as => (a.map List.cons).apply (list as)

/-- The value, or its problems as an error. -/
def toExcept : Checked α → Except (List Problem) α
  | .valid a => .ok a
  | .invalid ps => .error ps

end Checked

end Schematic
