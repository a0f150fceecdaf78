import Schematic.Proofs.Component.Schema
import Schematic.Proofs.Double.Shortest
import Schematic.Proofs.Text.Unicode

/-!
# Kinds of values

Which values are of a kind, and what is wrong with all others. A text may also be given as its
bytes, and a truth value as a word or as a number; an integer is only what is written as one.
-/

namespace Schematic

open Schema (Leaf)
open FieldReader (hasLoneHalf isInt64 wholeDouble? truthWords)

/-- The text is a word for true or for false, in any case of its letters. -/
def Text.IsTruthWord (t : Text) : Prop := ∃ w ∈ truthWords, t.asciiLower = Text.ofString w.1

namespace Value

def text? : Value → Option Text
  | .text t => some t
  | .bytes bs => (Utf8.decode bs).toOption
  | _ => none

/-- The value is the number 0 or 1, or a word for true or for false. -/
def IsTruth (v : Value) : Prop :=
  (∃ n : Int, (n = 0 ∨ n = 1) ∧ v.same (.int n) = true) ∨ ∃ t, v.text? = some t ∧ t.IsTruthWord

lemma isTruth_int_iff {n : Int} : (Value.int n).IsTruth ↔ n = 0 ∨ n = 1 := by
  simp [IsTruth, same, sameScalar, integer?, text?]

/-- Only numbers and truth values are the same as an integer. -/
lemma same_int_eq_false {v : Value} (hint : v.integer? = none) (hfloat : ∀ x, v ≠ .float x)
    (n : Int) :
    v.same (.int n) = false := by
  cases v with
  | bool b => cases hint
  | int k => cases hint
  | float x => exact absurd rfl (hfloat x)
  | _ => simp [same, sameScalar, integer?]

/-- A text or a byte string is a truth value if it is a word for one. -/
lemma isTruth_iff_of_text? {v : Value} {t : Text} (h : v.text? = some t) :
    v.IsTruth ↔ t.IsTruthWord := by
  have hsame (n : Int) : v.same (.int n) = false := by
    cases v with
    | text u => exact same_int_eq_false rfl (by simp) n
    | bytes bs => exact same_int_eq_false rfl (by simp) n
    | _ => cases h
  simp [IsTruth, hsame, h]

lemma not_isTruth {v : Value} (htext : v.text? = none) (hint : v.integer? = none)
    (hfloat : ∀ x, v ≠ .float x) : ¬ v.IsTruth := by
  simp [IsTruth, htext, same_int_eq_false hint hfloat]

/-- What is wrong with a value that is no truth value. -/
def truthComplaint : Value → Cause
  | .text t => if hasLoneHalf t then .notUnicode else .unclearBoolean
  | .bytes _ => .unclearBoolean
  | .int n => if isInt64 n then .unclearBoolean else .notBoolean
  | .float x => if (wholeDouble? x).isSome then .unclearBoolean else .notBoolean
  | _ => .notBoolean

end Value

namespace Schema

/-- The value is one of a kind. -/
def Leaf.Admits : Leaf → Value → Prop
  | .text, v => ∃ t, v.text? = some t
  | .bool, v => v.IsTruth
  | .int32, v => ∃ n, v = .int n ∧ -2 ^ 31 ≤ n ∧ n < 2 ^ 31
  | .choice tokens, v => ∃ t ∈ tokens, v.text? = some t

/-- What is wrong with a value that is not one of a kind. -/
def Leaf.complaint : Leaf → Value → Cause
  | .text, .bytes _ => .notUnicode
  | .text, _ => .notText
  | .bool, v => v.truthComplaint
  | .int32, .int n => if n < 0 then .tooSmall else .tooGreat
  | .int32, _ => .notInteger
  | .choice tokens, .text t => if hasLoneHalf t then .notUnicode else .notOneOf tokens
  | .choice tokens, _ => .notOneOf tokens

end Schema

namespace FieldReader

variable (d : Dialect)

/-- A text is read from what holds one. -/
lemma text_eq (v : Value) :
    text d v = match v.text? with
      | some t => .valid t
      | none => .fail (Leaf.text.complaint v) := by
  cases v with
  | bytes bs =>
    simp only [text, Value.text?]
    cases Utf8.decode bs <;> rfl
  | _ => rfl

lemma hasLoneHalf_eq_false_iff {t : Text} : hasLoneHalf t = false ↔ t.IsUnicode := by
  rw [hasLoneHalf, Option.isNone_eq_false_iff, Text.isSome_chars?_iff]

/-- Bytes stand for texts that have bytes. -/
lemma isUnicode_of_text? {bs : List UInt8} {t : Text} (h : (Value.bytes bs).text? = some t) :
    t.IsUnicode := by
  have hdecode : Utf8.decode bs = .ok t := by
    simp only [Value.text?] at h
    cases hbs : Utf8.decode bs with
    | ok u =>
      rw [hbs] at h
      exact congrArg Except.ok (Option.some.inj h)
    | error e =>
      rw [hbs] at h
      cases h
  exact Utf8.isUnicode_of_decodeFrom hdecode

/-- Lower case keeps what has no bytes. -/
lemma isUnicode_of_asciiLower {t : Text} (h : t.asciiLower.IsUnicode) : t.IsUnicode := by
  intro c hc
  cases c with
  | char a => exact ⟨a, rfl⟩
  | lone half => exact h (.lone half) (List.mem_map.mpr ⟨_, hc, rfl⟩)

lemma isUnicode_of_isTruthWord {t : Text} (h : t.IsTruthWord) : t.IsUnicode := by
  obtain ⟨w, -, hw⟩ := h
  apply isUnicode_of_asciiLower
  rw [hw]
  exact Text.isUnicode_ofChars _

/-- A text is read as a truth value if it is a word for one. -/
lemma truthOfWord_cases (t : Text) :
    (t.IsTruthWord ∧ ∃ b, truthOfWord t = .valid b) ∨
      (¬ t.IsTruthWord ∧ truthOfWord t = .fail (Value.text t).truthComplaint) := by
  by_cases hword : t.IsTruthWord
  · have hlone : hasLoneHalf t = false :=
      hasLoneHalf_eq_false_iff.mpr (isUnicode_of_isTruthWord hword)
    have hfind : (truthWords.find? fun w => t.asciiLower == Text.ofString w.1).isSome := by
      obtain ⟨w, hw, heq⟩ := hword
      exact List.find?_isSome.mpr ⟨w, hw, beq_iff_eq.mpr heq⟩
    obtain ⟨w, hw⟩ := Option.isSome_iff_exists.mp hfind
    exact .inl ⟨hword, w.2, by simp [truthOfWord, hlone, hw]⟩
  · have hfind : (truthWords.find? fun w => t.asciiLower == Text.ofString w.1) = none := by
      refine List.find?_eq_none.mpr fun w hw heq => hword ⟨w, hw, ?_⟩
      exact beq_iff_eq.mp heq
    refine .inr ⟨hword, ?_⟩
    rw [truthOfWord, hfind, Value.truthComplaint]
    split <;> rfl

/-- An integer is read as a truth value if it is zero or one. -/
lemma truthOfInt_cases (n : Int) :
    ((n = 0 ∨ n = 1) ∧ ∃ b, truthOfInt n = .valid b) ∨
      (¬ (n = 0 ∨ n = 1) ∧ truthOfInt n = .fail (Value.int n).truthComplaint) := by
  by_cases hone : n = 1
  · exact .inl ⟨.inr hone, true, by simp [truthOfInt, hone]⟩
  by_cases hzero : n = 0
  · exact .inl ⟨.inl hzero, false, by simp [truthOfInt, hzero]⟩
  · refine .inr ⟨by simp [hone, hzero], ?_⟩
    simp only [truthOfInt, hone, hzero, if_false, Value.truthComplaint]
    split <;> rfl

/-- A double is a whole number between two ends exactly if it is the same as the number. -/
lemma wholeDouble?_eq_some_iff {x : Double} {n : Int} :
    wholeDouble? x = some n ↔
      (-2 ^ 63 < n ∧ n < 2 ^ 63) ∧ (Value.float x).same (.int n) = true := by
  have hpos := Double.stepsOfOne_pos
  have hsame : (Value.float x).same (.int n) = true ↔ x.steps? = some (n * Double.stepsOfOne) := by
    simp [Value.same, Value.sameScalar, Value.integer?, Double.isInt]
  rw [hsame, wholeDouble?]
  cases x.steps? with
  | none => simp
  | some k =>
    simp only [Option.some.injEq]
    constructor
    · intro h
      split at h
      case isTrue hwhole =>
        obtain rfl := Option.some.inj h
        exact ⟨hwhole.2, (Int.ediv_mul_cancel_of_emod_eq_zero hwhole.1).symm⟩
      case isFalse => cases h
    · rintro ⟨hn, rfl⟩
      have hq : n * (Double.stepsOfOne : Int) / Double.stepsOfOne = n :=
        Int.mul_ediv_cancel n (by omega)
      rw [hq, if_pos ⟨Int.mul_emod_left n _, hn⟩]

/-- A float is a truth value if it is zero or one. -/
lemma isTruth_float_iff {x : Double} :
    (Value.float x).IsTruth ↔ ∃ n : Int, (n = 0 ∨ n = 1) ∧ wholeDouble? x = some n := by
  simp only [Value.IsTruth, Value.text?, reduceCtorEq, false_and, exists_false, or_false,
    wholeDouble?_eq_some_iff]
  refine exists_congr fun n => and_congr_right fun hn => (and_iff_right ?_).symm
  omega

end FieldReader

/-! ### Kinds and readers -/

namespace Schema

variable (d : Dialect) (v : Value)

/-- What a reader makes of the values of a kind, and of all others. -/
def Leaf.Decides (l : Leaf) (r : Checked Value) : Prop :=
  (l.Admits v ∧ ∃ w, r = .valid w) ∨ (¬ l.Admits v ∧ r = .fail (l.complaint v))

lemma Leaf.decides_text : Leaf.text.Decides v (Leaf.text.read d v) := by
  rw [Decides, Admits, read, FieldReader.text_eq]
  cases v.text? with
  | some t => exact .inl ⟨⟨t, rfl⟩, .text t, rfl⟩
  | none => exact .inr ⟨by simp, rfl⟩

/-- The reader of an integer decides on its leaf. -/
lemma Leaf.decides_int32 : Leaf.int32.Decides v (Leaf.int32.read d v) := by
  cases v with
  | int n =>
    have hadmits : Leaf.int32.Admits (.int n) ↔ -2 ^ 31 ≤ n ∧ n < 2 ^ 31 := by
      simp [Admits]
    rw [Decides, hadmits, read, FieldReader.int32, FieldReader.int32Range]
    by_cases hlow : n < -2147483648
    · have hneg : n < 0 := by omega
      simp only [hlow, complaint, hneg, if_true]
      exact .inr ⟨by omega, rfl⟩
    by_cases hhigh : 2147483647 < n
    · have hpos : ¬ n < 0 := by omega
      simp only [hlow, hhigh, complaint, hpos, if_true, if_false]
      exact .inr ⟨by omega, rfl⟩
    · simp only [hlow, hhigh, if_false]
      exact .inl ⟨by omega, _, rfl⟩
  | _ => exact .inr ⟨by simp [Admits], rfl⟩

/-- The reader of a choice decides on its leaf. -/
lemma Leaf.decides_choice {tokens : List Text} (h : ∀ t ∈ tokens, hasLoneHalf t = false) :
    (Leaf.choice tokens).Decides v ((Leaf.choice tokens).read d v) := by
  rw [Decides, Admits, read, FieldReader.choice, FieldReader.text_eq, List.map_id]
  cases hv : v.text? with
  | none =>
    refine .inr ⟨by simp, ?_⟩
    cases v <;> first | rfl | cases hv
  | some t =>
    by_cases ht : t ∈ tokens
    · -- The first token that is the text is the text itself.
      have hfind : tokens.find? (fun u => id u == t) = some t := by
        obtain ⟨u, hu⟩ := Option.isSome_iff_exists.mp
          (List.find?_isSome (p := fun u => id u == t).mpr ⟨t, ht, beq_self_eq_true t⟩)
        have heq : u = t := beq_iff_eq.mp (List.find?_some hu :)
        rw [hu, heq]
      simp only [h t ht, hfind]
      exact .inl ⟨⟨t, ht, rfl⟩, .text t, rfl⟩
    · have hfind : tokens.find? (fun u => id u == t) = none := by
        simpa [List.find?_eq_none] using fun u hu (heq : u = t) => ht (heq ▸ hu)
      refine .inr ⟨by simpa using ht, ?_⟩
      simp only [hfind]
      -- What is no token is complained of, whether it is a text or bytes that encode one.
      cases v with
      | text u =>
        obtain rfl := Option.some.inj hv
        simp only [complaint]
        split <;> rfl
      | bytes bs =>
        simp only [FieldReader.hasLoneHalf_eq_false_iff.mpr (FieldReader.isUnicode_of_text? hv)]
        rfl
      | _ => cases hv

/-- A value is decided on as the word or the number that it is. -/
lemma Leaf.decides_bool_of {P : Prop} {r : Checked Bool} (hadmits : v.IsTruth ↔ P)
    (h : (P ∧ ∃ b, r = .valid b) ∨ (¬ P ∧ r = .fail v.truthComplaint)) :
    Leaf.bool.Decides v (.bool <$> r) := by
  rcases h with ⟨hP, b, rfl⟩ | ⟨hP, rfl⟩
  · exact .inl ⟨hadmits.mpr hP, .bool b, rfl⟩
  · exact .inr ⟨mt hadmits.mp hP, rfl⟩

/-- The reader of a truth value decides on bytes. -/
lemma Leaf.decides_bool_bytes (bs : List UInt8) :
    Leaf.bool.Decides (.bytes bs) (Leaf.bool.read d (.bytes bs)) := by
  rw [Leaf.read, FieldReader.bool]
  cases hbs : Utf8.decode bs with
  | ok t =>
    have hv : (Value.bytes bs).text? = some t := by
      simp [Value.text?, hbs, Except.toOption]
    have hcases := FieldReader.truthOfWord_cases t
    have hlone := FieldReader.hasLoneHalf_eq_false_iff.mpr (FieldReader.isUnicode_of_text? hv)
    rw [Value.truthComplaint, hlone] at hcases
    exact decides_bool_of _ (Value.isTruth_iff_of_text? hv) hcases
  | error e =>
    have hv : (Value.bytes bs).text? = none := by
      simp [Value.text?, hbs, Except.toOption]
    exact .inr ⟨Value.not_isTruth hv rfl (by simp), rfl⟩

/-- The reader of a truth value decides on floats. -/
lemma Leaf.decides_bool_float (x : Double) :
    Leaf.bool.Decides (.float x) (Leaf.bool.read d (.float x)) := by
  have htruth := FieldReader.isTruth_float_iff (x := x)
  rw [Leaf.read, FieldReader.bool]
  cases hx : FieldReader.wholeDouble? x with
  | some n =>
    have hrange := (FieldReader.wholeDouble?_eq_some_iff.mp hx).1
    have hint64 : FieldReader.isInt64 n = true := by
      simp only [FieldReader.isInt64, Bool.and_eq_true, decide_eq_true_eq]
      omega
    have hcases := FieldReader.truthOfInt_cases n
    have hcomplaint : (Value.int n).truthComplaint = (Value.float x).truthComplaint := by
      simp [Value.truthComplaint, hint64, hx]
    rw [hcomplaint] at hcases
    apply decides_bool_of _ _ hcases
    simp [htruth, hx]
  | none =>
    refine .inr ⟨by simp [Admits, htruth, hx], ?_⟩
    simp only [complaint, Value.truthComplaint, hx]
    rfl

/-- The reader of a truth value decides on its leaf. -/
lemma Leaf.decides_bool : Leaf.bool.Decides v (Leaf.bool.read d v) := by
  cases v with
  | bool b =>
    have htruth : (Value.bool b).IsTruth := by
      cases b <;> simp [Value.IsTruth, Value.same, Value.sameScalar, Value.integer?]
    exact .inl ⟨htruth, .bool b, rfl⟩
  | text t =>
    exact decides_bool_of _ (Value.isTruth_iff_of_text? rfl) (FieldReader.truthOfWord_cases t)
  | bytes bs => exact decides_bool_bytes d bs
  | int n => exact decides_bool_of _ Value.isTruth_int_iff (FieldReader.truthOfInt_cases n)
  | float x => exact decides_bool_float d x
  | _ => exact .inr ⟨Value.not_isTruth rfl rfl (by simp), rfl⟩

/-- The reader of a leaf gives a value if the leaf admits it, and otherwise the complaint of the
leaf. -/
theorem Leaf.decides_read {l : Leaf} (hl : l.IsWellFormed) : l.Decides v (l.read d v) := by
  cases l with
  | text => exact decides_text d v
  | bool => exact decides_bool d v
  | int32 => exact decides_int32 d v
  | choice tokens => exact decides_choice d v hl

end Schema

end Schematic
