import Schematic.Proofs.Yaml.Conversion
import Schematic.Proofs.Yaml.Moves

/-!
# What a YAML text holds that does not convert

Reading a text fails by a conversion only where the text holds what does not convert: among its
characters a version with too many digits or an escape past the last code point, or in its node a
content that spells no value of its tag.
-/

namespace Schematic.Yaml

/-- A text holds what a conversion error tells of. -/
inductive HoldsUnconverted (t : Text) (e : ConversionError) : Prop
  /-- The text holds a version with too many digits, or an escape past the last code point. -/
  | characters {cs : List Char} (ht : t = .ofChars cs) (h : (Failure.unconverted e).IsFoundIn cs)
  /-- The node of the text holds a content that does not convert. -/
  | node {n : Node} (hn : compose t = .ok (some n)) (h : n.Unconverted e)

/-- A document that does not convert holds something that does not. -/
lemma holdsUnconverted_of_read {t : Text} {e : ConversionError}
    (h : read t = .error (.unconverted e)) :
    HoldsUnconverted t e := by
  rw [read] at h
  cases hcompose : compose t with
  | error f =>
    rw [hcompose] at h
    cases h
    rcases exists_chars_of_compose hcompose with ⟨e', ⟨⟩⟩ | ⟨cs, ht, hcs⟩
    exact .characters ht hcs
  | ok n? =>
    rw [hcompose] at h
    cases n? with
    | none => cases h
    | some n => exact .node hcompose (unconverted_of_value h)

end Schematic.Yaml
