import Schematic.Proofs.Component.Contract
import Schematic.Proofs.Yaml.Flow.Document

/-!
# JSON documents as YAML

A JSON document in front of a comment is no JSON any more, and is read as YAML. A component that is
spelled by the rules that both notations share is read again. Otherwise the document is refused, or
its numbers and texts are seen in another way.
-/

namespace Schematic

open Json (Document Literal)

namespace Json

/-- A document in front of a comment breaks the grammar of JSON. -/
lemma read_comment {d : Document} (hshort : d.EveryNumber Literal.IsShort) :
    ∃ position, read (d.toText ++ "\n# x") = .error (.malformed position) := by
  let blanks : Blanks :=
    ⟨d.after.val ++ [.char '\n'], List.forall_mem_append.mpr ⟨d.after.property, by decide⟩⟩
  have hwhole : d.toText ++ ("\n# x" : Text)
      = d.before.val ++ (d.spelling.toText ++ (blanks.val ++ ("# x" : Text))) := by
    simp [Document.toText, Text.ofString, blanks]
  have hends : EndsNumeral ("# x" : Text) := by
    constructor <;> simp [Text.ofString] <;> decide
  have hlength : d.spelling.toText.length ≤ (d.toText ++ ("\n# x" : Text)).length + 1 := by
    simp only [Document.toText, List.length_append]
    omega
  have hvalue := (value_toText d.spelling _ (blanks.val ++ ("# x" : Text)) hlength
    (hends.append blanks)).1 hshort
  have hskip : skipSpace (d.toText ++ "\n# x")
      = d.spelling.toText ++ (blanks.val ++ ("# x" : Text)) := by
    rw [hwhole]
    exact (d.spelling.startsItem_toText.append _).skipSpace_append d.before
  have hcomment : skipSpace (blanks.val ++ ("# x" : Text)) = ("# x" : Text) :=
    skipSpace_append blanks.property (by decide)
  have hdocument : document (d.toText ++ "\n# x") = .error (.malformed "# x") := by
    -- The value is read in full, and then the number sign is found where the text should end.
    rw [document, if_neg (d.head?_append_ne (by decide)), hskip]
    dsimp only
    rw [hvalue, ok_bind]
    simp only [hcomment]
    rfl
  exact ⟨_, by rw [read, hdocument]; rfl⟩

end Json

namespace Component

open Yaml (HasNoSeparators IsReadable IsShared)

variable {d : Document} {c : Component}

/-- A component is spelled by an object without integers that are too long. -/
lemma isObject_of_ofText (h : ofText d.toText = .ok c) :
    d.spelling.IsObject ∧ d.EveryNumber Literal.IsShort := by
  obtain ⟨hread, hlong⟩ := Json.read_toText d
  have hshort : d.EveryNumber Literal.IsShort := by
    by_contra hnot
    obtain ⟨count, hcount⟩ := hlong hnot
    rw [ofText, valueOfText, hcount] at h
    cases h
  have hvalid := (ofText_eq_ok_iff (hread hshort)).mp h
  refine ⟨?_, hshort⟩
  rw [Document.toJson] at hvalid
  cases hs : d.spelling with
  | emptyObject _ | object _ _ => trivial
  | null | bool _ | text _ | emptyArray _ | array _ _ =>
    rw [hs] at hvalid
    cases hvalid
  | number l =>
    rw [hs, Json.Spelling.toJson, Json.Numeral.value] at hvalid
    split at hvalid <;> cases hvalid

/-- The value of an object in front of a comment is what is seen in it, if all of it can be read as
YAML. -/
theorem valueOfText_comment (hobject : d.spelling.IsObject) (hshort : d.EveryNumber Literal.IsShort)
    (hseparators : HasNoSeparators d.toText) :
    (IsReadable d → valueOfText (d.toText ++ "\n# x") = .ok d.spelling.seen.toValue) ∧
      (¬ IsReadable d → ∃ e, valueOfText (d.toText ++ "\n# x") = .error e) := by
  obtain ⟨position, hjson⟩ := Json.read_comment hshort
  obtain ⟨hreads, hfails⟩ := Yaml.read_document d hobject hshort hseparators
  rw [valueOfText_eq hjson, valueOfYaml]
  refine ⟨fun h => by rw [hreads h]; rfl, fun h => ?_⟩
  obtain ⟨e, he, -⟩ := hfails h
  exact ⟨_, by rw [he]; rfl⟩

lemma ofText_congr {t u : Text} (h : valueOfText t = valueOfText u) : ofText t = ofText u := by
  rw [ofText, h, ofText]

/-- A comment after a component makes no difference to its value exactly if the component is spelled
by the rules that JSON and YAML share; then it is the same component. -/
theorem ofText_comment (h : ofText d.toText = .ok c) (hnames : d.spelling.HasDistinctNames)
    (hseparators : HasNoSeparators d.toText) :
    (valueOfText (d.toText ++ "\n# x") = valueOfText d.toText ↔ IsShared d) ∧
      (IsShared d → ofText (d.toText ++ "\n# x") = .ok c) := by
  obtain ⟨hobject, hshort⟩ := isObject_of_ofText h
  obtain ⟨hreads, hfails⟩ := valueOfText_comment hobject hshort hseparators
  have hjson : valueOfText d.toText = .ok d.spelling.toJson.toValue := by
    rw [valueOfText, (Json.read_toText d).1 hshort]
    rfl
  have hiff : valueOfText (d.toText ++ "\n# x") = valueOfText d.toText ↔ IsShared d := by
    rw [hjson]
    by_cases hreadable : IsReadable d
    · rw [hreads hreadable, Except.ok.injEq]
      have hseen := d.spelling.seen_eq_iff hnames
      exact ⟨fun heq => ⟨hreadable, hseen.mp (Json.toValue_injective _ _ heq)⟩,
        fun hshared => congrArg Json.toValue (hseen.mpr hshared.isYaml)⟩
    · obtain ⟨e, he⟩ := hfails hreadable
      rw [he]
      exact iff_of_false (by simp) fun h => hreadable h.toIsReadable
  exact ⟨hiff, fun hshared => (ofText_congr (hiff.mpr hshared)).trans h⟩

/-! ### Numbers in two notations -/

lemma areSingle_plainPieces (t : Text) : Json.AreSingle (plainPieces t) := by
  intro p hp
  obtain ⟨c, -, hc⟩ := List.mem_filterMap.mp hp
  split at hc <;> cases hc
  trivial

section

variable (l : Literal)

lemma seen_sizeDocument : (sizeDocument l).spelling.seen = dataOfDefault l.seen := rfl

/-- No name of the document is too wide for a key. -/
lemma hasNarrowNames_sizeDocument : (sizeDocument l).spelling.HasNarrowNames := by
  have hname : (plainName "name").IsNarrow := ⟨by decide, by decide⟩
  have htype : (plainName "type").IsNarrow := ⟨by decide, by decide⟩
  have hdefault : (plainName "default").IsNarrow := ⟨by decide, by decide⟩
  exact ⟨List.forall_mem_singleton.mpr ⟨by decide, by decide⟩,
    List.forall_mem_cons.mpr
      ⟨hname, List.forall_mem_cons.mpr ⟨htype, List.forall_mem_singleton.mpr hdefault⟩⟩, trivial,
    trivial, trivial⟩

/-- A document is spelled as YAML spells it if its one number is. -/
lemma isYaml_sizeDocument (hl : l.IsYaml) : (sizeDocument l).spelling.IsYaml := by
  have hname (t : Text) : Json.AreSingle (plainName t).pieces := areSingle_plainPieces t
  exact ⟨List.forall_mem_singleton.mpr (hname _),
    List.forall_mem_cons.mpr
      ⟨hname _, List.forall_mem_cons.mpr ⟨hname _, List.forall_mem_singleton.mpr (hname _)⟩⟩,
    areSingle_plainPieces _, areSingle_plainPieces _, hl⟩

end

/-- A one with a fraction and an exponent is a proper numeral. -/
lemma isProper_one (f : Option Nat) (e : Option Int) :
    (Json.Numeral.mk false "1" (f.map Text.ofNat) e).IsProper where
  whole_ne_nil := List.cons_ne_nil _ _
  whole_isDigits := Text.isDigits_ofNat 1
  whole_head := .inr (by rintro ⟨⟩)
  fraction_ne_nil := by
    intro u hu
    obtain ⟨n, -, rfl⟩ := Option.map_eq_some_iff.mp hu
    exact Text.ofNat_ne_nil n
  fraction_isDigits := by
    intro u hu
    obtain ⟨n, -, rfl⟩ := Option.map_eq_some_iff.mp hu
    exact Text.isDigits_ofNat n

/-- A number in the notation that JSON and YAML share, 1.5e+3. -/
def sharedNumber : Literal := .ofNumeral 1 ⟨false, "1", some "5", some 3⟩ (isProper_one (some 5) _)

/-- A component with a number in this notation is read again in front of a comment. -/
theorem ofText_comment_sharedNumber :
    (sizeDocument sharedNumber).toText = sizeText "1.5e+3" ∧
      ofText (sizeDocument sharedNumber).toText
        = .ok (ofDefault sharedNumber.numeral.value.toValue) ∧
      (sizeDocument sharedNumber).spelling.HasDistinctNames ∧
      HasNoSeparators (sizeDocument sharedNumber).toText ∧
      ofText ((sizeDocument sharedNumber).toText ++ "\n# x")
        = .ok (ofDefault sharedNumber.numeral.value.toValue) := by
  have htext : (sizeDocument sharedNumber).toText = sizeText "1.5e+3" := rfl
  have hshort : sharedNumber.IsShort := fun _ => by decide
  have hseparators : HasNoSeparators (sizeDocument sharedNumber).toText := by
    rw [htext]
    decide
  have hshared : IsShared (sizeDocument sharedNumber) := by
    refine ⟨⟨?_, ?_, hasNarrowNames_sizeDocument _⟩, isYaml_sizeDocument _ (by decide)⟩ <;>
      rw [htext] <;> decide
  exact ⟨htext, ofText_sizeDocument _ hshort, hasDistinctNames_sizeDocument _, hseparators,
    (ofText_comment (ofText_sizeDocument _ hshort) (hasDistinctNames_sizeDocument _) hseparators).2
      hshared⟩

/-- An exponent without a sign. -/
def bareExponent (n : Nat) : Json.Exponent :=
  ⟨false, none, Text.ofNat n, Text.ofNat_ne_nil n, Text.isDigits_ofNat n⟩

/-- A number whose exponent has no sign, 1e5. -/
def bareNumber : Literal := ⟨false, "1", none, some (bareExponent 5), isProper_one none _⟩

/-- In front of a comment the number is a text, and the component is another one. -/
theorem not_ofText_comment_bareExponent :
    ∃ (d : Document) (c c' : Component), d.toText = sizeText "1e5" ∧
      d.spelling.HasDistinctNames ∧ HasNoSeparators d.toText ∧ ofText d.toText = .ok c ∧
      ofText (d.toText ++ "\n# x") = .ok c' ∧ c' ≠ c := by
  have htext : (sizeDocument bareNumber).toText = sizeText "1e5" := rfl
  have hshort : bareNumber.IsShort := fun _ => by decide
  have hseparators : HasNoSeparators (sizeDocument bareNumber).toText := by
    rw [htext]
    decide
  have hreadable : IsReadable (sizeDocument bareNumber) := by
    refine ⟨?_, ?_, hasNarrowNames_sizeDocument _⟩ <;> rw [htext] <;> decide
  -- An exponent without a sign makes a text of the number.
  have hseen : bareNumber.seen = .text "1e5" := if_neg (by decide)
  have hvalue :=
    (valueOfText_comment (d := sizeDocument bareNumber) trivial ⟨trivial, trivial, hshort⟩
      hseparators).1 hreadable
  rw [seen_sizeDocument, hseen] at hvalue
  have hcomment : ofText ((sizeDocument bareNumber).toText ++ "\n# x")
      = .ok (ofDefault (.text "1e5")) := by
    rw [ofText, hvalue]
    exact ofValue_eq_ok_iff.mpr (read_dataOfDefault _)
  refine ⟨_, _, _, htext, hasDistinctNames_sizeDocument _, hseparators,
    ofText_sizeDocument _ hshort, hcomment, ?_⟩
  intro heq
  have hdefault := congrArg (fun c => c.parameters.map (·.default)) heq
  cases hdefault

end Component

end Schematic
