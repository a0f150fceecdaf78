import Schematic.Yaml.Source

/-!
# Tokens

The words of a YAML document. A key of a block mapping needs no mark of its own, so that the tokens
`key` and `blockMappingStart` may stand in front of words that came before the colon.
-/

namespace Schematic.Yaml

/-- A line that speaks to the reader. -/
inductive Directive where
  | version (major minor : Nat)
  | tag (handle start : Text)
  | reserved (name : Text)

/-- The words of a document. -/
inductive Word where
  | directive (d : Directive)
  | documentStart
  | documentEnd
  | streamEnd
  | blockSequenceStart
  | blockMappingStart
  | blockEnd
  | flowSequenceStart
  | flowMappingStart
  | flowSequenceEnd
  | flowMappingEnd
  | key
  | value
  | blockEntry
  | flowEntry
  | alias (name : Text)
  | anchor (name : Text)
  | tag (handle : Option Text) (suffix : Text)
  | scalar (content : Text) (isPlain : Bool)

/-- A word with the places where it starts and ends. -/
structure Token where
  word : Word
  start : Mark
  stop : Mark

/-- How a message names a word. -/
def Word.name : Word → Text
  | .directive _ => "<directive>"
  | .documentStart => "<document start>"
  | .documentEnd => "<document end>"
  | .streamEnd => "<stream end>"
  | .blockSequenceStart => "<block sequence start>"
  | .blockMappingStart => "<block mapping start>"
  | .blockEnd => "<block end>"
  | .flowSequenceStart => "["
  | .flowMappingStart => "\x7b"
  | .flowSequenceEnd => "]"
  | .flowMappingEnd => "\x7d"
  | .key => "?"
  | .value => ":"
  | .blockEntry => "-"
  | .flowEntry => ","
  | .alias _ => "<alias>"
  | .anchor _ => "<anchor>"
  | .tag _ _ => "<tag>"
  | .scalar _ _ => "<scalar>"

end Schematic.Yaml
