import Schematic.Proofs.Fault
import Schematic.Proofs.Value.Keys
import Schematic.Value.Literal

/-!
# Literals of values that are the same

Values that are the same need not have the same literal: the integer 1, the number 1.0 and the truth
value of 1 are written differently. But one of them has a literal only if the other one has.
-/

namespace Schematic.Value

/-! ### Scalars -/

/-- A value with that essence can be written: it is null, a text, or a number that is not too
long. -/
def Essence.IsWritable : Essence → Prop
  | .null | .text _ => True
  | .number (.inl steps) => steps.natAbs < writingLimit * Double.stepsOfOne
  | .number (.inr _) => True
  | .bytes _ | .date _ | .moment _ _ => False

lemma largest_le_writingLimit : 2 ^ 53 * 2 ^ 2045 ≤ writingLimit * Double.stepsOfOne := by
  unfold writingLimit Double.stepsOfOne
  decide +kernel

/-- A double is never too long. -/
lemma isWritable_measure (x : Double) : (Essence.number x.measure).IsWritable := by
  cases x with
  | finite negative m =>
    have hlt := Nat.lt_of_lt_of_le (m.steps_lt m.exponent_le) largest_le_writingLimit
    cases negative <;> simpa [Double.measure, Double.steps?, Essence.IsWritable] using hlt
  | infinite _ | nan _ => trivial

lemma isWritable_int {n : Int} :
    (Essence.number (.inl (n * Double.stepsOfOne))).IsWritable ↔ isTooLong n = false := by
  have hpos := Double.stepsOfOne_pos
  rw [Essence.IsWritable, Int.natAbs_mul, Int.natAbs_natCast, isTooLong, decide_eq_false_iff_not,
    Nat.not_le, Nat.mul_lt_mul_right hpos]

/-- A value has a literal. -/
def HasLiteral (v : Value) : Prop := ∃ j, v.literal = .ok j

/-- A value can be the name of an entry of a literal. -/
def HasLiteralKey (v : Value) : Prop := ∃ name, v.literalKey = .ok name

lemma isWritable_bool (b : Bool) :
    (Essence.number (.inl ((if b then 1 else 0) * Double.stepsOfOne))).IsWritable :=
  isWritable_int.mpr (by cases b <;> decide +kernel)

/-- A scalar has a literal if what it is compared by can be written. -/
lemma hasLiteral_iff_isWritable {v : Value} {e : Essence} (he : v.essence? = some e) :
    v.HasLiteral ↔ e.IsWritable := by
  cases v with
  | null | text _ | bytes _ | date _ | dateTime _ =>
    rw [essence?, Option.some.injEq] at he
    simp [← he, HasLiteral, literal, Essence.IsWritable]
  | bool b =>
    rw [essence?, Option.some.injEq] at he
    rw [← he]
    exact iff_of_true ⟨_, by rw [literal]⟩ (isWritable_bool b)
  | int n =>
    rw [essence?, Option.some.injEq] at he
    rw [← he, isWritable_int, HasLiteral, literal]
    cases isTooLong n <;> simp
  | float x =>
    rw [essence?, Option.some.injEq] at he
    simp [← he, HasLiteral, literal, isWritable_measure x]
  | list _ | tuple _ | set _ | map _ => cases he

/-- A key has a literal if it is a scalar that can be written. -/
lemma hasLiteralKey_iff {k : Value} :
    k.HasLiteralKey ↔ ∃ e, k.essence? = some e ∧ e.IsWritable := by
  cases k with
  | null | text _ | bytes _ | date _ | dateTime _ =>
    simp [essence?, HasLiteralKey, literalKey, Essence.IsWritable]
  | bool b => exact iff_of_true ⟨_, rfl⟩ ⟨_, rfl, isWritable_bool b⟩
  | int n =>
    simp only [essence?, Option.some.injEq, exists_eq_left', isWritable_int, HasLiteralKey,
      literalKey]
    cases isTooLong n <;> simp
  | float x => simp [essence?, HasLiteralKey, literalKey, isWritable_measure x]
  | list _ | tuple _ | set _ | map _ => simp [essence?, HasLiteralKey, literalKey]

lemma hasLiteralKey_iff_of_same {k l : Value} (h : k.same l = true) :
    k.HasLiteralKey ↔ l.HasLiteralKey := by
  rw [hasLiteralKey_iff, hasLiteralKey_iff, essence?_eq_of_same h]

/-! ### Collections -/

/-- Items have literals if each of them has one. -/
lemma literalItems_isOk_iff {vs : List Value} :
    (∃ js, literalItems vs = .ok js) ↔ ∀ v ∈ vs, v.HasLiteral := by
  induction vs with
  | nil => simp [literalItems]
  | cons v vs ih =>
    rw [List.forall_mem_cons, ← ih, literalItems, HasLiteral]
    cases v.literal <;> cases literalItems vs <;> simp [pure, Except.pure]

/-- Entries have literals if each key and each value has one. -/
lemma literalEntries_isOk_iff {es : List (Value × Value)} :
    (∃ fs, literalEntries es = .ok fs) ↔ ∀ e ∈ es, e.1.HasLiteralKey ∧ e.2.HasLiteral := by
  induction es with
  | nil => simp [literalEntries]
  | cons e es ih =>
    rw [List.forall_mem_cons, ← ih, literalEntries, HasLiteral, HasLiteralKey]
    cases e.1.literalKey <;> cases e.2.literal <;> cases literalEntries es <;>
      simp [pure, Except.pure]

lemma hasLiteral_list_iff {vs : List Value} : (list vs).HasLiteral ↔ ∀ v ∈ vs, v.HasLiteral := by
  rw [← literalItems_isOk_iff, HasLiteral, literal]
  cases literalItems vs <;> simp [pure, Except.pure]

lemma hasLiteral_tuple_iff {vs : List Value} : (tuple vs).HasLiteral ↔ ∀ v ∈ vs, v.HasLiteral := by
  rw [← literalItems_isOk_iff, HasLiteral, literal]
  cases literalItems vs <;> simp [pure, Except.pure]

lemma hasLiteral_map_iff {es : List (Value × Value)} :
    (map es).HasLiteral ↔ ∀ e ∈ es, e.1.HasLiteralKey ∧ e.2.HasLiteral := by
  rw [← literalEntries_isOk_iff, HasLiteral, literal]
  cases literalEntries es <;> simp [pure, Except.pure]

mutual

/-- Every map in the value binds hashable keys, each of them once. -/
def BindsOnce : Value → Prop
  | .list vs | .tuple vs | .set vs => BindOnceItems vs
  | .map es => HaveDistinctKeys es ∧ (∀ e ∈ es, e.1.IsHashable) ∧ BindOnceEntries es
  | .null | .bool _ | .int _ | .float _ | .text _ | .bytes _ | .date _ | .dateTime _ => True

/-- Every map in the values binds hashable keys, each of them once. -/
def BindOnceItems : List Value → Prop
  | [] => True
  | v :: vs => v.BindsOnce ∧ BindOnceItems vs

/-- Every map in the values of some entries binds hashable keys, each of them once. -/
def BindOnceEntries : List (Value × Value) → Prop
  | [] => True
  | (_, v) :: es => v.BindsOnce ∧ BindOnceEntries es

end

mutual

/-- Values that are the same either both have a literal or both have none. -/
theorem hasLiteral_iff_of_same (v w : Value) (hv : v.BindsOnce) (h : v.same w = true) :
    v.HasLiteral ↔ w.HasLiteral := by
  match v with
  | .list vs =>
    cases w with
    | list ws =>
      simp only [same] at h
      rw [hasLiteral_list_iff, hasLiteral_list_iff]
      exact forall_hasLiteral_iff_of_same vs ws hv h
    | _ => simp [same] at h
  | .tuple vs =>
    cases w with
    | tuple ws =>
      simp only [same] at h
      have hitems := forall_hasLiteral_iff_of_same vs ws hv h
      rwa [← hasLiteral_list_iff, ← hasLiteral_list_iff] at hitems
    | _ => simp [same] at h
  | .set vs =>
    -- A set has no literal, and is the same as sets only.
    cases w with
    | set ws => simp [HasLiteral, literal]
    | _ => simp [same] at h
  | .map es =>
    cases w with
    | map fs =>
      simp only [same, Bool.and_eq_true, beq_iff_eq] at h
      have hvalue := hasLiteral_entry_iff_of_same es hv.2.2
      rw [hasLiteral_map_iff, hasLiteral_map_iff]
      constructor
      · -- Each entry has a partner with the same key, in both directions.
        intro hes f hf
        obtain ⟨e, he, hkey, hsame⟩ := exists_same_of_allEntries h.1 h.2 hv.1 hv.2.1 f hf
        exact ⟨(hasLiteralKey_iff_of_same hkey).mp (hes e he).1,
          (hvalue e he f.2 hsame).mp (hes e he).2⟩
      · intro hfs e he
        obtain ⟨f, hf, hkey, hsame⟩ := allEntries_iff.mp h.2 e he
        exact ⟨(hasLiteralKey_iff_of_same hkey).mpr (hfs f hf).1,
          (hvalue e he f.2 hsame).mpr (hfs f hf).2⟩
    | _ => simp [same] at h
  | .null | .bool _ | .int _ | .float _ | .text _ | .bytes _ | .date _ | .dateTime _ =>
    -- A scalar is written by what it has in common with the values that are the same.
    have he := essence?_eq_of_same h
    rw [hasLiteral_iff_isWritable rfl, hasLiteral_iff_isWritable he.symm]

/-- Lists that are the same have literals alike. -/
theorem forall_hasLiteral_iff_of_same (vs ws : List Value) (hvs : BindOnceItems vs)
    (h : sameList vs ws = true) : (∀ v ∈ vs, v.HasLiteral) ↔ ∀ w ∈ ws, w.HasLiteral := by
  match vs, ws with
  | [], [] => simp
  | v :: vs, w :: ws =>
    simp only [sameList, Bool.and_eq_true] at h
    rw [List.forall_mem_cons, List.forall_mem_cons, hasLiteral_iff_of_same v w hvs.1 h.1,
      forall_hasLiteral_iff_of_same vs ws hvs.2 h.2]
  | [], _ :: _ | _ :: _, [] => simp [sameList] at h

/-- Each value of an entry has a literal if those that are the same have one. -/
theorem hasLiteral_entry_iff_of_same (es : List (Value × Value)) (hes : BindOnceEntries es) :
    ∀ e ∈ es, ∀ w, e.2.same w = true → (e.2.HasLiteral ↔ w.HasLiteral) := by
  match es with
  | [] => simp
  | (_, v) :: es =>
    rw [List.forall_mem_cons]
    exact ⟨fun w h => hasLiteral_iff_of_same v w hes.1 h, hasLiteral_entry_iff_of_same es hes.2⟩

end

/-! ### Values without literal -/

/-- Data that JSON text has no form for. -/
def IsFormless : Value → Prop
  | .bytes _ | .date _ | .dateTime _ | .set _ => True
  | _ => False

/-- A value holds what its literal fails by: data without form, an integer that is too long, or a
key that is no name. -/
inductive Unwritten : Value → LiteralError → Prop
  | kind {v : Value} (h : v.IsFormless) : Unwritten v (.kind v)
  | long {n : Int} (h : isTooLong n = true) : Unwritten (.int n) .tooManyDigits
  | item {v : Value} {vs : List Value} {e : LiteralError} (hv : v ∈ vs) (h : Unwritten v e) :
      Unwritten (.list vs) e
  | component {v : Value} {vs : List Value} {e : LiteralError} (hv : v ∈ vs) (h : Unwritten v e) :
      Unwritten (.tuple vs) e
  | key {p : Value × Value} {es : List (Value × Value)} {e : LiteralError} (hp : p ∈ es)
      (h : p.1.literalKey = .error e) : Unwritten (.map es) e
  | value {p : Value × Value} {es : List (Value × Value)} {e : LiteralError} (hp : p ∈ es)
      (h : Unwritten p.2 e) : Unwritten (.map es) e

/-- An integer fails if it is too long. -/
lemma unwritten_int {n : Int} {e : LiteralError} (h : (int n).literal = .error e) :
    (int n).Unwritten e := by
  rw [literal] at h
  by_cases hlong : isTooLong n = true
  · rw [if_pos hlong] at h
    cases h
    exact .long hlong
  · rw [if_neg hlong] at h
    cases h

mutual

/-- A value fails by something in it that has no literal. -/
theorem unwritten_of_literal (v : Value) {e : LiteralError} :
    v.literal = .error e → v.Unwritten e := by
  match v with
  | .null | .bool _ | .float _ | .text _ => simp [literal]
  | .int n => exact unwritten_int
  | .bytes _ | .date _ | .dateTime _ | .set _ =>
    simp only [literal, Except.error.injEq]
    rintro rfl
    exact .kind trivial
  | .list vs =>
    rw [literal, bind_eq_error]
    rintro (h | ⟨js, -, h⟩)
    · obtain ⟨w, hw, hunwritten⟩ := unwritten_of_literalItems vs h
      exact .item hw hunwritten
    · cases h
  | .tuple vs =>
    rw [literal, bind_eq_error]
    rintro (h | ⟨js, -, h⟩)
    · obtain ⟨w, hw, hunwritten⟩ := unwritten_of_literalItems vs h
      exact .component hw hunwritten
    · cases h
  | .map es =>
    rw [literal, bind_eq_error]
    rintro (h | ⟨js, -, h⟩)
    · -- An entry is unwritten by its key or, if that is written, by its value.
      obtain ⟨p, hp, hkey | hvalue⟩ := unwritten_of_literalEntries es h
      · exact .key hp hkey
      · exact .value hp hvalue
    · cases h

/-- Items fail by one of them. -/
theorem unwritten_of_literalItems (vs : List Value) {e : LiteralError}
    (h : literalItems vs = .error e) :
    ∃ v ∈ vs, v.Unwritten e := by
  match vs with
  | [] => cases h
  | v :: vs =>
    rw [literalItems, bind_eq_error] at h
    rcases h with h | ⟨j, -, h⟩
    · exact ⟨v, List.mem_cons_self, unwritten_of_literal v h⟩
    · rw [bind_eq_error] at h
      rcases h with h | ⟨js, -, h⟩
      · obtain ⟨w, hw, hunwritten⟩ := unwritten_of_literalItems vs h
        exact ⟨w, List.mem_cons_of_mem v hw, hunwritten⟩
      · cases h

/-- Entries fail by one of their keys or values. -/
theorem unwritten_of_literalEntries (es : List (Value × Value)) {e : LiteralError}
    (h : literalEntries es = .error e) : ∃ p ∈ es, p.1.literalKey = .error e ∨ p.2.Unwritten e := by
  match es with
  | [] => cases h
  | (k, v) :: es =>
    rw [literalEntries, bind_eq_error] at h
    rcases h with h | ⟨name, -, h⟩
    · exact ⟨(k, v), List.mem_cons_self, .inl h⟩
    · rw [bind_eq_error] at h
      rcases h with h | ⟨j, -, h⟩
      · exact ⟨(k, v), List.mem_cons_self, .inr (unwritten_of_literal v h)⟩
      · rw [bind_eq_error] at h
        rcases h with h | ⟨rest, -, h⟩
        · obtain ⟨p, hp, hunwritten⟩ := unwritten_of_literalEntries es h
          exact ⟨p, List.mem_cons_of_mem (k, v) hp, hunwritten⟩
        · cases h

end

/-- A value has a literal exactly if it holds nothing that a literal fails by. -/
theorem hasLiteral_iff_forall_not_unwritten {v : Value} : v.HasLiteral ↔ ∀ e, ¬ v.Unwritten e := by
  constructor
  · intro hv e he
    induction he with
    | @kind v h => cases v <;> simp_all [IsFormless, HasLiteral, literal]
    | long h => simp [HasLiteral, literal, h] at hv
    | item hw _ ih => exact ih (hasLiteral_list_iff.mp hv _ hw)
    | component hw _ ih => exact ih (hasLiteral_tuple_iff.mp hv _ hw)
    | key hp h =>
      obtain ⟨name, hname⟩ := (hasLiteral_map_iff.mp hv _ hp).1
      cases hname.symm.trans h
    | value hp _ ih => exact ih (hasLiteral_map_iff.mp hv _ hp).2
  · intro h
    cases hv : v.literal with
    | ok j => exact ⟨j, hv⟩
    | error e => exact absurd (unwritten_of_literal v hv) (h e)

/-- A value that is not written for the environment has something in it without a literal. -/
lemma unwritten_of_envText {v : Value} {e : LiteralError} (h : v.envText = .error e) :
    v.Unwritten e := by
  have hliteral : v.literal = .error e := by
    cases v with
    | null | text _ => simp [envText] at h
    | _ =>
      rw [envText, bind_eq_error] at h
      · rcases h with h | ⟨j, -, h⟩
        · exact h
        · cases h
      all_goals simp
  exact unwritten_of_literal v hliteral

end Schematic.Value
