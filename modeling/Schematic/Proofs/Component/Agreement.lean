import Schematic.Proofs.Component.Dialect
import Schematic.Proofs.Component.JsonRoundTrip

/-!
# The two readers of JSON text agree

A component is read from JSON text by two ways: by the strict grammar, with the fields read from the
text, or by the lenient grammar, with the fields read from the value that the text holds. On
documents in which no integer has too many digits, both give the same component or both refuse the
document, as far as the strict grammar gets through. It does not if the text holds half of a
surrogate pair, or a number that is no integer and whose whole part has more than 4300 digits.
-/

namespace Schematic.Component

open Json (Document Literal)

/-- The error says that a document is no component, and is not a fault of another kind. -/
def ReadError.IsSchemaError : ReadError → Prop
  | .empty | .malformed _ _ | .notMap _ | .problems _ => True
  | .tooManyDigits _ | .unconverted _ => False

/-- Both readings give the same component, or both say that there is none. -/
def Agree (r s : Except ReadError Component) : Prop :=
  (∃ c, r = .ok c ∧ s = .ok c) ∨
    ∃ e f, r = .error e ∧ s = .error f ∧ e.IsSchemaError ∧ f.IsSchemaError

/-- Readings that refuse documents by schema errors only agree if they give the same components. -/
lemma agree_iff {r s : Except ReadError Component} (hr : ∀ e, r = .error e → e.IsSchemaError)
    (hs : ∀ e, s = .error e → e.IsSchemaError) : Agree r s ↔ ∀ c, r = .ok c ↔ s = .ok c := by
  constructor
  · rintro (⟨c, rfl, rfl⟩ | ⟨e, f, rfl, rfl, -⟩)
    · exact fun _ => .rfl
    · simp
  · intro h
    cases r with
    | ok c => exact .inl ⟨c, rfl, (h c).mp rfl⟩
    | error e =>
      cases s with
      | ok c => cases (h c).mpr rfl
      | error f => exact .inr ⟨e, f, rfl, rfl, hr e rfl, hs f rfl⟩

/-! ### By the lenient grammar -/

/-- A value that is read fails by an error of the schema. -/
lemma ofValue_isSchemaError {v : Value} {e : ReadError} (h : ofValue v = .error e) :
    e.IsSchemaError := by
  unfold ofValue at h
  split at h
  · cases hread : Component.read .values _ with
    | valid c =>
      rw [hread] at h
      cases h
    | invalid ps =>
      rw [hread] at h
      cases h
      trivial
  · cases h
    trivial

/-- A component is read from a value if the reader finds no problem in it. -/
lemma ofValue_eq_ok_iff {v : Value} {c : Component} :
    ofValue v = .ok c ↔ Component.read .values v = .valid c := by
  unfold ofValue
  split
  · cases Component.read .values _ with
    | valid d => simp [Checked.toExcept, Except.mapError]
    | invalid ps => simp [Checked.toExcept, Except.mapError]
  · rename_i hne
    unfold Component.read FieldReader.record
    split
    · exact absurd rfl (hne _)
    · simp [Checked.fail]

section

variable {t : Text} {j : Json} (hread : Json.read t = .ok j)

include hread

/-- A text that is read as JSON is an empty document or gives what its data gives. -/
lemma ofText_cases :
    (j = .null ∧ ofText t = .error .empty) ∨ ofText t = ofValue j.toValue := by
  rw [ofText, valueOfText, hread]
  cases j with
  | null => exact .inl ⟨rfl, rfl⟩
  | _ => exact .inr rfl

/-- The data of a text that the lenient grammar takes decides on the component. -/
lemma ofText_eq_ok_iff {c : Component} :
    ofText t = .ok c ↔ Component.read .values j.toValue = .valid c := by
  rcases ofText_cases hread with ⟨rfl, htext⟩ | htext
  · simp [htext, Json.toValue, Component.read, FieldReader.record, Checked.fail]
  · rw [htext, ofValue_eq_ok_iff]

lemma ofText_isSchemaError {e : ReadError} (h : ofText t = .error e) : e.IsSchemaError := by
  rcases ofText_cases hread with ⟨-, htext⟩ | htext
  · cases htext.symm.trans h
    trivial
  · exact ofValue_isSchemaError (htext ▸ h)

end

/-! ### By the strict grammar -/

/-- Text that is checked as JSON fails by an error of the schema. -/
lemma ofJson_isSchemaError {t : Text} {e : ReadError} (h : ofJson t = .error e) :
    e.IsSchemaError := by
  rw [ofJson] at h
  cases hread : readJson Component.read t with
  | valid c =>
    rw [hread] at h
    cases h
  | invalid ps =>
    rw [hread] at h
    cases h
    trivial

/-- A component that the strict grammar gives is read from the data of the text. -/
lemma exists_of_ofJson {t : Text} {c : Component} (h : ofJson t = .ok c) :
    ∃ j, Json.Strict.read t = .ok j ∧ Component.read .jsonText j.toValue = .valid c := by
  rw [ofJson, readJson] at h
  split at h
  · cases h
  · cases hj : Json.Strict.read t with
    | error e =>
      rw [hj] at h
      cases h
    | ok j =>
      simp only [hj] at h
      cases hread : Component.read .jsonText j.toValue with
      | valid c' =>
        rw [hread] at h
        cases h
        exact ⟨j, rfl, hread⟩
      | invalid ps =>
        rw [hread] at h
        cases h

/-- The strict grammar takes the text of a document exactly if the text has bytes and no number is
too long. -/
lemma ofJson_toText_eq_ok_iff (d : Document) (hdepth : d.depth ≤ Json.Strict.maxDepth)
    {c : Component} :
    ofJson d.toText = .ok c ↔ d.toText.IsUnicode ∧ d.EveryNumber Literal.HasShortWhole ∧
      Component.read .jsonText d.toJson.toValue = .valid c := by
  have hread := Json.Strict.read_toText d hdepth
  rw [ofJson, readJson]
  by_cases hunicode : d.toText.IsUnicode
  · rw [Utf8.unwritable?_eq_none_iff.mpr hunicode]
    by_cases hshort : d.EveryNumber Literal.HasShortWhole
    · simp only [hread.1 hshort, hunicode, hshort, true_and, Option.isSome_none, Bool.false_eq_true,
        if_false]
      cases Component.read .jsonText d.toJson.toValue <;> simp [Checked.toExcept, Except.mapError]
    · obtain ⟨e, he⟩ := hread.2 hshort
      simp [he, hshort, Checked.fail, Checked.toExcept, Except.mapError]
  · have hsome : (Utf8.unwritable? d.toText).isSome = true := by
      rw [Option.isSome_iff_ne_none]
      exact mt Utf8.unwritable?_eq_none_iff.mp hunicode
    simp [hsome, hunicode, Checked.fail, Checked.toExcept, Except.mapError]

/-! ### Agreement -/

/-- On a document in which no integer has too many digits, the two readers agree exactly if the
strict grammar takes the text or the document is refused anyway. Otherwise the strict grammar
refuses the document, and the lenient one gives a component. -/
theorem agree_iff_hasShortWhole (d : Document) (hshort : d.EveryNumber Literal.IsShort)
    (hdepth : d.depth < 100) :
    (Agree (ofJson d.toText) (ofText d.toText) ↔
      (d.toText.IsUnicode ∧ d.EveryNumber Literal.HasShortWhole) ∨
        ∃ e, ofText d.toText = .error e) ∧
    (¬ Agree (ofJson d.toText) (ofText d.toText) →
      (∃ e, ofJson d.toText = .error e ∧ e.IsSchemaError) ∧ ∃ c, ofText d.toText = .ok c) := by
  have hread := (Json.read_toText d).1 hshort
  have hlevels : d.depth ≤ Json.Strict.maxDepth := by
    rw [Json.Strict.maxDepth]
    omega
  -- Both readers see the same data, so they agree wherever both give a component.
  have htext (c : Component) : ofText d.toText = .ok c ↔
      Component.read .jsonText d.toJson.toValue = .valid c := by
    rw [ofText_eq_ok_iff hread, ← Component.translates_read .values .jsonText,
      Checked.inDialect_eq_valid_iff]
  have hjson (c : Component) : ofJson d.toText = .ok c ↔
      (d.toText.IsUnicode ∧ d.EveryNumber Literal.HasShortWhole) ∧ ofText d.toText = .ok c := by
    rw [ofJson_toText_eq_ok_iff d hlevels, htext, and_assoc]
  have hagree := agree_iff (fun _ => ofJson_isSchemaError) (fun _ => ofText_isSchemaError hread)
    (r := ofJson d.toText)
  have hiff : Agree (ofJson d.toText) (ofText d.toText) ↔
      (d.toText.IsUnicode ∧ d.EveryNumber Literal.HasShortWhole) ∨
        ∃ e, ofText d.toText = .error e := by
    rw [hagree]
    simp only [hjson]
    cases ofText d.toText with
    | ok c => simp
    | error e => simp
  refine ⟨hiff, fun hnot => ?_⟩
  rw [hiff, not_or] at hnot
  constructor
  · -- The strict grammar can not take the text, since its condition fails.
    cases h : ofJson d.toText with
    | ok c => exact absurd ((hjson c).mp h).1 hnot.1
    | error e => exact ⟨e, rfl, ofJson_isSchemaError h⟩
  · -- The lenient one can not refuse it, since the readers would agree on that.
    cases h : ofText d.toText with
    | ok c => exact ⟨c, rfl⟩
    | error e => exact absurd ⟨e, h⟩ hnot.2

/-- An architecture that is spelled by an escape, between blanks and beside a number of another
name. -/
def escapedArch : Document where
  before := ⟨" ", by decide⟩
  spelling := .object ⟨[], by decide⟩ <|
    .more
      ⟨[.plain (.char 'a') (by decide), .plain (.char 'r') (by decide),
        .plain (.char 'c') (by decide), .plain (.char 'h') (by decide)],
        ⟨" ", by decide⟩, ⟨[], by decide⟩⟩
      (.text [.unit ⟨"0061", 0x61, rfl, rfl⟩ (by decide)]) ⟨[], by decide⟩ ⟨" ", by decide⟩ <|
    .last
      ⟨[.plain (.char 'n') (by decide)], ⟨[], by decide⟩, ⟨[], by decide⟩⟩
      (.number ⟨true, "1", some "5",
        some ⟨true, none, "3", by decide, by unfold Text.IsDigits; decide⟩,
        ⟨by decide, by unfold Text.IsDigits; decide, .inr (by decide), by rintro _ ⟨⟩; decide,
          by rintro _ ⟨⟩; unfold Text.IsDigits; decide⟩⟩)
      ⟨"\n", by decide⟩
  after := ⟨[], by decide⟩

/-- Both readers read an architecture that is spelled by an escape. -/
theorem agree_escapedArch :
    escapedArch.toText = " \x7b\"arch\" :\"\\u0061\", \"n\":-1.5E3\n\x7d" ∧
      escapedArch.EveryNumber Literal.IsShort ∧ escapedArch.depth < 100 ∧
      Agree (ofJson escapedArch.toText) (ofText escapedArch.toText) := by
  have htext : escapedArch.toText = " \x7b\"arch\" :\"\\u0061\", \"n\":-1.5E3\n\x7d" := rfl
  have hunicode : escapedArch.toText.IsUnicode := by
    rw [htext]
    exact Text.isUnicode_ofChars _
  have hwhole : escapedArch.EveryNumber Literal.HasShortWhole :=
    ⟨trivial, show 1 ≤ Json.maxDigits by decide⟩
  have hshort : escapedArch.EveryNumber Literal.IsShort :=
    ⟨trivial, fun _ => show 1 ≤ Json.maxDigits by decide⟩
  have hdepth : escapedArch.depth < 100 := by decide
  exact ⟨htext, hshort, hdepth,
    (agree_iff_hasShortWhole escapedArch hshort hdepth).1.mpr (.inl ⟨hunicode, hwhole⟩)⟩

/-- The data of a component with a single parameter, of which only the default is of interest. -/
def dataOfDefault (j : Json) : Json :=
  .object [("parameters",
    .array [.object [("name", .text "size"), ("type", .text "Number"), ("default", j)]])]

/-- A document that declares one parameter is read as the component that declares it. -/
lemma read_dataOfDefault (j : Json) :
    Component.read .values (dataOfDefault j).toValue = .valid (ofDefault j.toValue) := by
  have hparameter : Parameter.read .values (Value.record
      [("name", .text "size"), ("type", .text "Number"), ("default", j.toValue)])
      = .valid { name := "size", type := .number, default := j.toValue } := by
    have htype : ParameterType.read .values (.text "Number") = .valid .number :=
      ParameterType.inverts_read .values .number
    simp [Parameter.read, record_eq, Fields.need_eq, Fields.take_eq, Text.ofString_beq,
      FieldReader.inverts_text .values, htype, FieldReader.any]
  have hcomponent : Component.read .values (Value.record [("parameters", .list [Value.record
      [("name", .text "size"), ("type", .text "Number"), ("default", j.toValue)]])])
      = .valid (ofDefault j.toValue) := by
    simp [Component.read, record_eq, Fields.take_eq, Text.ofString_beq, FieldReader.list,
      FieldReader.items?, Checked.list, hparameter]
    rfl
  exact hcomponent

/-! ### A number with a long whole part -/

/-- The code points of a text that spell themselves. -/
def plainPieces (t : Text) : List Json.Piece :=
  t.filterMap
    fun c => if h : 0x20 ≤ c.value ∧ c ≠ .char '"' ∧ c ≠ .char '\\' then some (.plain c h) else none

lemma isSpace_spaces (n : Nat) : ∀ c ∈ Text.spaces n, Json.isSpace c = true := by
  intro c hc
  rw [List.eq_of_mem_replicate hc]
  rfl

def spaces (n : Nat) : Json.Blanks := ⟨Text.spaces n, isSpace_spaces n⟩

/-- A name that is spelled by its own code points, with a space after its colon. -/
def plainName (t : Text) : Json.Name := ⟨plainPieces t, spaces 0, spaces 1⟩

/-- A component with a single parameter, whose default is a number. -/
def sizeDocument (l : Literal) : Document where
  before := spaces 0
  spelling := .object (spaces 0) <| .last (plainName "parameters") (.array (spaces 0) <|
    .last (.object (spaces 0) <|
      .more (plainName "name") (.text (plainPieces "size")) (spaces 0) (spaces 1) <|
      .more (plainName "type") (.text (plainPieces "Number")) (spaces 0) (spaces 1) <|
      .last (plainName "default") (.number l) (spaces 0)) (spaces 0)) (spaces 0)
  after := spaces 0

def sizeText (number : Text) : Text :=
  ("\x7b\"parameters\": [\x7b\"name\": \"size\", \"type\": \"Number\", \"default\": " : Text)
    ++ number ++ "\x7d]\x7d"

/-- The number one, spelled with `n` zeros that its exponent takes back. -/
def scaledOne (n : Nat) : Literal where
  negative := false
  whole := .char '1' :: Text.ofChars (List.replicate n '0')
  fraction := none
  exponent := some ⟨false, some true, Text.ofNat n, Text.ofNat_ne_nil n, Text.isDigits_ofNat n⟩
  isProper :=
    { whole_ne_nil := List.cons_ne_nil _ _
      whole_isDigits := List.forall_mem_cons.mpr ⟨rfl, Text.isDigits_zeros n⟩
      whole_head := .inr (by rintro ⟨⟩)
      fraction_ne_nil := by rintro _ ⟨⟩
      fraction_isDigits := by rintro _ ⟨⟩ }

lemma length_whole_scaledOne (n : Nat) : (scaledOne n).whole.length = n + 1 := by
  simp [scaledOne, Text.ofChars]

lemma text_scaledOne (n : Nat) :
    (scaledOne n).text = "1" ++ Text.ofChars (List.replicate n '0') ++ ("e-" ++ Text.ofNat n) := rfl

/-- However many zeros there are, the number is the same. -/
lemma value_scaledOne (n : Nat) :
    (scaledOne n).numeral.value = .float (Double.ofDecimal false 1 0) := by
  have hwhole : Json.digitsValue (scaledOne n).whole = 1 * 10 ^ n := by
    have happend := Json.digitsValue_append [.char '1'] (Text.ofChars (List.replicate n '0'))
    have hlength : (Text.ofChars (List.replicate n '0')).length = n := by simp [Text.ofChars]
    rw [Json.digitsValue_zeros, hlength] at happend
    exact happend
  have hexponent : Json.exponentValue true (Text.ofNat n) = 0 - n := by
    rw [Json.exponentValue, Json.digitsValue_ofNat, Int.zero_sub]
    rfl
  rw [← Double.ofDecimal_mul_pow_ten false 1 0 n, ← hwhole, ← hexponent]
  simp [Json.Numeral.value, Json.Numeral.isWhole, Literal.numeral, scaledOne, Json.Exponent.value]

def oneMagnitude : Magnitude := ⟨2 ^ 52, 1022, by decide, by decide, .inr (Nat.le_refl _)⟩

/-- The double nearest to the decimal 1 is the integer 1. -/
lemma isInt_ofDecimal_one : (Double.ofDecimal false 1 0).isInt 1 = true := by
  have hholds : oneMagnitude.holdsDecimal 1 0 = true := by
    unfold Magnitude.holdsDecimal Double.stepsOfOne
    decide +kernel
  rw [Magnitude.ofDecimal_of_holdsDecimal false (by decide) hholds]
  unfold Double.isInt Double.stepsOfOne
  decide +kernel

section

variable (l : Literal)

lemma toJson_sizeDocument : (sizeDocument l).toJson = dataOfDefault l.numeral.value := rfl

lemma hasDistinctNames_sizeDocument : (sizeDocument l).spelling.HasDistinctNames := by
  have hparameter : (["name", "type", "default"] : List Text).Nodup := by decide
  exact ⟨show [_].Nodup by decide, hparameter, trivial, trivial, trivial⟩

lemma ofText_sizeDocument (hl : l.IsShort) :
    ofText (sizeDocument l).toText = .ok (ofDefault l.numeral.value.toValue) := by
  have hread := (Json.read_toText (sizeDocument l)).1 ⟨trivial, trivial, hl⟩
  rw [ofText_eq_ok_iff hread, toJson_sizeDocument]
  exact read_dataOfDefault _

lemma toText_sizeDocument : (sizeDocument l).toText = sizeText l.text := by
  simp only [sizeText, sizeDocument, Document.toText, Json.Spelling.toText, Json.Items.toText,
    Json.Members.toText, List.append_assoc, List.cons_append]
  rfl

lemma isUnicode_sizeText {t : Text} (ht : t.IsUnicode) : (sizeText t).IsUnicode :=
  ((Text.isUnicode_ofString _).append ht).append (Text.isUnicode_ofString _)

/-- A number that is no integer and has a long whole part is a default for the lenient grammar
only. -/
lemma not_agree_sizeDocument (hl : l.IsShort) (hlong : ¬ l.HasShortWhole) :
    ¬ Agree (ofJson (sizeDocument l).toText) (ofText (sizeDocument l).toText) := by
  rw [ofText_sizeDocument l hl]
  rintro (⟨c, hc, -⟩ | ⟨_, _, -, herror, -⟩)
  · obtain ⟨-, ⟨-, -, hwhole⟩, -⟩ :=
      (ofJson_toText_eq_ok_iff (sizeDocument l) (show 3 ≤ Json.Strict.maxDepth by decide)).mp hc
    exact hlong hwhole
  · cases herror

end

/-- The number one with 5000 zeros and the exponent -5000, in the range of doubles like any other
way to spell it, is a default for the lenient grammar only. -/
theorem not_agree_longWhole :
    let d := sizeDocument (scaledOne 5000)
    d.toText = sizeText ("1" ++ Text.ofChars (List.replicate 5000 '0') ++ "e-5000") ∧
      d.toText.IsUnicode ∧ d.EveryNumber Literal.IsShort ∧
      d.spelling.HasDistinctNames ∧ d.depth < 100 ∧
      ∃ x : Double, x.isInt 1 = true ∧ ofText d.toText = .ok (ofDefault (.float x)) ∧
        ¬ Agree (ofJson d.toText) (ofText d.toText) := by
  intro d
  have htext : d.toText = sizeText ("1" ++ Text.ofChars (List.replicate 5000 '0') ++ "e-5000") :=
    (toText_sizeDocument _).trans (congrArg sizeText (text_scaledOne 5000))
  have hunicode : d.toText.IsUnicode := by
    rw [htext]
    exact isUnicode_sizeText (((Text.isUnicode_ofString _).append (Text.isUnicode_ofChars _)).append
      (Text.isUnicode_ofString _))
  have hshort : (scaledOne 5000).IsShort := by rintro ⟨⟩
  have hlong : ¬ (scaledOne 5000).HasShortWhole := by
    rw [Literal.HasShortWhole, length_whole_scaledOne, Json.maxDigits]
    omega
  have hread := ofText_sizeDocument _ hshort
  rw [value_scaledOne] at hread
  exact ⟨htext, hunicode, ⟨trivial, trivial, hshort⟩,
    hasDistinctNames_sizeDocument _, show 3 < 100 by decide, _, isInt_ofDecimal_one, hread,
    not_agree_sizeDocument _ hshort hlong⟩

end Schematic.Component
