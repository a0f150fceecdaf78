import Schematic.Yaml.Node.Reader
import Schematic.Yaml.Node.Value

/-!
# Reading YAML text

A text is a single document: its characters are checked, split into tokens, put together to nodes,
and given values. A stream without a document is null.
-/

namespace Schematic.Yaml

/-- The code point may stand in a document. -/
def isAcceptablePoint : CodePoint → Bool
  | .char c => isAcceptable c
  | .lone _ => false

/-- The characters of a text that holds no unacceptable code point. -/
def acceptableChars (t : Text) : Except Failure (List Char) :=
  match t.find? fun c => !isAcceptablePoint c with
  | some c =>
    .error (.refused (.unacceptable c (t.takeWhile isAcceptablePoint).length))
  | none => .ok ((t.chars?).getD [])

/-- The node of the document in a text, if there is one. -/
def compose (t : Text) : Except Failure (Option Node) := do
  Node.ofTokens? (.ofSource (.ofChars (← acceptableChars t)))

def read (t : Text) : Except Failure Value := do
  match ← compose t with
  | none => return .null
  | some n => n.value

end Schematic.Yaml
