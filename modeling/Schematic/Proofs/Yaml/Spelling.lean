import Schematic.Proofs.Yaml.Number
import Schematic.Proofs.Yaml.Plain

/-!
# Words and numbers that are written plain

A word or a number of JSON is written as it stands, and is read back.
-/

namespace Schematic.Yaml

open Json (Numeral Literal)

variable {t : Text}

/-! ### Plain texts -/

lemma hasIndicator_of_isNumeral (h : t.IsNumeral) (afterGap : Bool) :
    hasIndicator afterGap t = false := by
  induction t generalizing afterGap with
  | nil => rfl
  | cons c t ih =>
    obtain ⟨hc, ht⟩ := List.forall_mem_cons.mp h
    have hcolon : (c == .char ':') = false := beq_eq_false_iff_ne.mpr (hc.ne rfl (by decide))
    have hsign : (c == .char '#') = false := beq_eq_false_iff_ne.mpr (hc.ne rfl (by decide))
    rw [hasIndicator, hcolon, hsign, ih ht]
    rfl

/-- A number is plain. -/
lemma isPlainText_text (l : Literal) : IsPlainText l.text ∧ startsWithIndicator l.text = false := by
  have hnumeral := isNumeral_text l
  have hline : IsLine l.text := fun c hc => (hnumeral c hc).within
  obtain ⟨c, cs, hc, hbody⟩ := l.exists_body_eq
  obtain ⟨d, hd, rfl⟩ := CodePoint.isDigit_iff.mp hc
  refine ⟨⟨hline, ?_, fun hlast => ?_, hasIndicator_of_isNumeral hnumeral true⟩, ?_⟩
  · rw [Literal.text, hbody]
    cases l.negative with
    | true => exact ⟨'-', _, rfl, by decide, by decide⟩
    | false => interval_cases d <;> exact ⟨_, _, rfl, by decide, by decide⟩
  · exact (hnumeral _ (List.mem_of_getLast? hlast)).ne rfl (by decide) rfl
  · rw [Literal.text, hbody]
    cases l.negative with
    | true => interval_cases d <;> rfl
    | false => interval_cases d <;> rfl

/-! ### Scalars -/

/-- A text that is written plain as it stands, and what a reader makes of it. -/
structure IsSpelling (t : Text) (v : Value) : Prop where
  isPlainText : IsPlainText t
  startsWithIndicator : startsWithIndicator t = false
  scalarValue_eq : ∀ m, scalarValue (.ofPlain t) t m = .ok v

lemma isSpelling_null : IsSpelling "null" .null where
  isPlainText := ⟨by decide, ⟨'n', _, rfl, by decide, by decide⟩, by decide, by decide⟩
  startsWithIndicator := by decide
  scalarValue_eq _ := rfl

lemma isSpelling_true : IsSpelling "true" (.bool true) where
  isPlainText := ⟨by decide, ⟨'t', _, rfl, by decide, by decide⟩, by decide, by decide⟩
  startsWithIndicator := by decide
  scalarValue_eq _ := rfl

lemma isSpelling_false : IsSpelling "false" (.bool false) where
  isPlainText := ⟨by decide, ⟨'f', _, rfl, by decide, by decide⟩, by decide, by decide⟩
  startsWithIndicator := by decide
  scalarValue_eq _ := rfl

lemma isSpelling_text {l : Literal} (hl : l.IsYaml) (hshort : l.IsShort) :
    IsSpelling l.text l.numeral.value.toValue where
  isPlainText := (isPlainText_text l).1
  startsWithIndicator := (isPlainText_text l).2
  scalarValue_eq := scalarValue_text hl hshort

/-- A written exponent has a sign. -/
lemma isYaml_ofNumeral {n : Numeral} (width : Nat) (hn : n.IsProper)
    (h : n.exponent.isSome = true → n.fraction.isSome = true) :
    (Literal.ofNumeral width n hn).IsYaml := by
  intro x hx
  obtain ⟨e, he, rfl⟩ := Option.map_eq_some_iff.mp hx
  exact ⟨h (Option.isSome_iff_exists.mpr ⟨e, he⟩), rfl⟩

/-- An integer is spelled as YAML spells it. -/
lemma isSpelling_int {k : Int} (hk : (Json.int k).IsShort) :
    IsSpelling (Text.ofInt k) (.int k) := by
  have hn := Numeral.isProper_ofInt k
  have hshort : (Literal.ofNumeral 0 (Numeral.ofInt k) hn).IsShort :=
    fun _ => (Numeral.length_ofInt_le k).mpr hk
  have hspelling := isSpelling_text (isYaml_ofNumeral 0 hn (by simp [Numeral.ofInt])) hshort
  rwa [Literal.text_ofNumeral, Literal.numeral_ofNumeral, Numeral.spelled_ofInt,
    Numeral.value_ofInt] at hspelling

/-- A float is spelled as YAML spells it. -/
lemma isSpelling_float {x : Double} (hx : x.isFinite = true) :
    IsSpelling (numbers.text x) (.float x) := by
  match x with
  | .finite negative m =>
    obtain ⟨n, hn, htext, hvalue, -, -, hfraction⟩ :=
      Double.Layout.exists_numeral numbers (by decide) (by decide) negative m
    have hyaml := isYaml_ofNumeral numbers.exponentWidth hn fun _ => hfraction rfl
    have hshort : (Literal.ofNumeral numbers.exponentWidth n hn).IsShort := by
      rw [Literal.IsShort, Literal.numeral_ofNumeral, Numeral.isWhole,
        Option.isNone_eq_false_iff.mpr (hfraction rfl)]
      exact fun h => absurd h (by simp)
    have hspelling := isSpelling_text hyaml hshort
    rwa [Literal.text_ofNumeral, Literal.numeral_ofNumeral, hvalue, ← htext] at hspelling
  | .infinite _ | .nan _ => simp [Double.isFinite, Double.steps?] at hx

end Schematic.Yaml
