import Schematic.Proofs.Component.Agreement
import Schematic.Proofs.Json.Excess
import Schematic.Proofs.Yaml.Cause
import Schematic.Proofs.Yaml.Document

/-!
# What reading a document fails by

A text that is no component is refused by a schema error, or the text holds something that is
spelled like a value and is none: too many digits in a row, a number of a version with too many
digits, an escape past the last code point, or a scalar that does not convert under its tag. The
last error of these passes as it is.
-/

namespace Schematic.Component

open Yaml.NodeReader

/-- A document gives a component, or is refused by a schema error. -/
def KeepsContract (t : Text) : Prop :=
  (∃ c, ofText t = .ok c) ∨ ∃ e, ofText t = .error e ∧ e.IsSchemaError

/-- What a text holds, of which an error tells that is no schema error. -/
inductive ReadError.ComesFrom (t : Text) : ReadError → Prop
  /-- The text holds a run of more digits than an integer may have. -/
  | digits {count : Nat} (h : t.HasRun count) : ComesFrom t (.tooManyDigits count)
  /-- The text holds a version with too many digits, or an escape past the last code point. -/
  | characters {cs : List Char} {e : Yaml.ConversionError} (ht : t = .ofChars cs)
      (h : (Yaml.Failure.unconverted e).IsFoundIn cs) : ComesFrom t (.unconverted e)
  /-- The node of the text holds a content that does not convert. -/
  | node {n : Yaml.Node} {e : Yaml.ConversionError} (hn : Yaml.compose t = .ok (some n))
      (h : n.Unconverted e) : ComesFrom t (.unconverted e)

instance (e : ReadError) : Decidable e.IsSchemaError :=
  match e with
  | .empty | .malformed _ _ | .notMap _ | .problems _ => .isTrue trivial
  | .tooManyDigits _ | .unconverted _ => .isFalse not_false

instance (t : Text) : Decidable (KeepsContract t) :=
  match h : ofText t with
  | .ok c => .isTrue (.inl ⟨c, h⟩)
  | .error e => decidable_of_iff e.IsSchemaError (by simp [KeepsContract, h])

variable {t : Text}

lemma keepsContract_iff : KeepsContract t ↔ ∀ e, ofText t = .error e → e.IsSchemaError := by
  unfold KeepsContract
  cases ofText t with
  | ok c => simp
  | error e => simp

/-! ### Values -/

/-- Once the document has a value, only the schema can fail. -/
lemma isSchemaError_of_valueOfText {v : Value} {e : ReadError} (hv : valueOfText t = .ok v)
    (h : ofText t = .error e) : e.IsSchemaError := by
  rw [ofText, hv] at h
  dsimp only [ok_bind] at h
  split at h
  · cases h
    trivial
  · exact ofValue_isSchemaError h

lemma ofText_of_valueOfText {e : ReadError} (h : valueOfText t = .error e) :
    ofText t = .error e := by
  rw [ofText, h]
  rfl

/-- A text that has a value keeps the contract. -/
lemma keepsContract_of_valueOfText {v : Value} (hv : valueOfText t = .ok v) : KeepsContract t :=
  keepsContract_iff.mpr fun _ => isSchemaError_of_valueOfText hv

/-- A text without a value keeps the contract by its error. -/
lemma keepsContract_iff_of_valueOfText {e : ReadError} (h : valueOfText t = .error e) :
    KeepsContract t ↔ e.IsSchemaError := by
  rw [keepsContract_iff, ofText_of_valueOfText h]
  simp

section

variable {position : Nat} (hjson : Json.read t = .error (.malformed position))

include hjson

lemma valueOfText_eq : valueOfText t = valueOfYaml t := by
  rw [valueOfText, hjson]

/-- The value of the node of a text that is no JSON. -/
lemma valueOfText_of_compose {n : Yaml.Node} (hn : Yaml.compose t = .ok (some n)) :
    valueOfText t = n.value.mapError fun
      | .refused e => .malformed t e
      | .unconverted e => .unconverted e := by
  rw [valueOfText_eq hjson, valueOfYaml, Yaml.read, hn]
  rfl

/-- A document without a value is refused by the reader of YAML, or something in it does not
convert. -/
lemma comesFrom_of_yaml {e : ReadError} (h : valueOfText t = .error e) :
    e.IsSchemaError ∨ e.ComesFrom t := by
  rw [valueOfText_eq hjson, valueOfYaml] at h
  obtain ⟨f, hread, rfl⟩ := mapError_eq_error.mp h
  cases f with
  | refused e => exact .inl trivial
  | unconverted e =>
    cases Yaml.holdsUnconverted_of_read hread with
    | characters ht h => exact .inr (.characters ht h)
    | node hn h => exact .inr (.node hn h)

end

/-- An error that is no schema error tells of something that the text holds. -/
lemma comesFrom_of_ofText {e : ReadError} (h : ofText t = .error e) :
    e.IsSchemaError ∨ e.ComesFrom t := by
  cases hvalue : valueOfText t with
  | ok v => exact .inl (isSchemaError_of_valueOfText hvalue h)
  | error e' =>
    obtain rfl : e' = e := by
      rw [ofText_of_valueOfText hvalue] at h
      exact Except.error.inj h
    cases hjson : Json.read t with
    | ok j =>
      rw [valueOfText, hjson] at hvalue
      cases hvalue
    | error f =>
      cases f with
      | malformed position => exact comesFrom_of_yaml hjson hvalue
      | tooManyDigits count =>
        rw [valueOfText, hjson] at hvalue
        cases hvalue
        exact .inr (.digits (Json.hasRun_of_read hjson))

/-! ### The contract -/

/-- A JSON document keeps the contract if none of its integers has too many digits. -/
lemma keepsContract_toText_iff (d : Json.Document) :
    KeepsContract d.toText ↔ d.EveryNumber Json.Literal.IsShort := by
  obtain ⟨hshort, hlong⟩ := Json.read_toText d
  by_cases h : d.EveryNumber Json.Literal.IsShort
  · simp only [h, iff_true]
    refine keepsContract_of_valueOfText (v := d.toJson.toValue) ?_
    rw [valueOfText, hshort h]
  · obtain ⟨count, hcount⟩ := hlong h
    have hvalue : valueOfText d.toText = .error (.tooManyDigits count) := by
      rw [valueOfText, hcount]
    simp [keepsContract_iff_of_valueOfText hvalue, h, ReadError.IsSchemaError]

/-- A YAML document of lists, mappings and scalars keeps the contract if every scalar in it
converts. -/
lemma keepsContract_iff_of_isUsual {position : Nat}
    (hjson : Json.read t = .error (.malformed position)) {n : Yaml.Node}
    (hn : Yaml.compose t = .ok (some n)) (husual : n.IsUsual) :
    KeepsContract t ↔ ∀ e, ¬ n.Unconverted e := by
  have hvalue := valueOfText_of_compose hjson hn
  rcases husual.value_cases with ⟨⟨v, hv⟩, hnone⟩ | ⟨⟨e, he⟩, hsome⟩
  · rw [hv] at hvalue
    simp only [keepsContract_of_valueOfText hvalue, hnone, not_false_eq_true, implies_true]
  · rw [he] at hvalue
    simp only [keepsContract_iff_of_valueOfText hvalue, ReadError.IsSchemaError, false_iff,
      not_forall, not_not]
    exact hsome

def leapDay : Yaml.Node :=
  .mapping .mapping
    [(.scalar (plainTag true "a") "a" ⟨0, 0, 0⟩,
      .scalar (plainTag true "2020-02-29") "2020-02-29" ⟨3, 0, 3⟩)] ⟨0, 0, 0⟩

/-- The day is a scalar with the tag of times. -/
lemma compose_leapDay : Yaml.compose "a: 2020-02-29" = .ok (some leapDay) := by
  have hpage : Yaml.IsPage "a: 2020-02-29" := by
    unfold Yaml.IsPage
    decide
  have htokens : Yaml.Tokens.ofSource (.ofText .origin "a: 2020-02-29") =
      ⟨⟨.blockMappingStart, ⟨0, 0, 0⟩, ⟨0, 0, 0⟩⟩ :: (⟨.key, ⟨0, 0, 0⟩, ⟨0, 0, 0⟩⟩ ::
        ([⟨.scalar "a" true, ⟨0, 0, 0⟩, ⟨1, 0, 1⟩⟩] ++ (⟨.value, ⟨1, 0, 1⟩, ⟨2, 0, 2⟩⟩ ::
          ([⟨.scalar "2020-02-29" true, ⟨3, 0, 3⟩, ⟨13, 0, 13⟩⟩] ++ []))) ++
        [⟨.blockEnd, ⟨13, 0, 13⟩, ⟨13, 0, 13⟩⟩]), .ok ⟨13, 0, 13⟩⟩ := rfl
  rw [hpage.compose_eq, htokens]
  exact ofTokens?_mapping (IsEntries.cons (isNode_scalar "a" true)
    (isNode_scalar "2020-02-29" true).isPart isEntries_nil).isNode

lemma isUsual_leapDay : leapDay.IsUsual := by
  refine .mapping ?_ ?_ ?_
  · exact List.forall_mem_singleton.mpr (.scalar (by decide +kernel) (by decide +kernel))
  · exact List.forall_mem_singleton.mpr rfl
  · exact List.forall_mem_singleton.mpr (.scalar (by decide +kernel) (by decide +kernel))

end Schematic.Component
