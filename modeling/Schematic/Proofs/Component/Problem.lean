import Mathlib.Tactic.Lemma
import Schematic.Component.Problem

/-!
# The problems of checked values

Checked values are put together with all of their problems, one after another. What has no problems
is valid.
-/

namespace Schematic

namespace Checked

variable {α β : Type}

/-- The problems of a checked value, none if it is valid. -/
def problems : Checked α → List Problem
  | .valid _ => []
  | .invalid ps => ps

@[simp]
lemma problems_valid (a : α) : (valid a).problems = [] := rfl

@[simp]
lemma problems_fail (c : Cause) : (fail c : Checked α).problems = [⟨[], c⟩] := rfl

@[simp]
lemma problems_map (f : α → β) (r : Checked α) : (f <$> r).problems = r.problems := by
  cases r <;> rfl

@[simp]
lemma problems_seq (f : Checked (α → β)) (r : Checked α) :
    (f <*> r).problems = f.problems ++ r.problems := by
  cases f <;> cases r <;> simp [Seq.seq, apply, problems]

@[simp]
lemma problems_under (step : PathStep) (r : Checked α) :
    (r.under step).problems = r.problems.map (·.under step) := by
  cases r <;> rfl

/-- The problems of a list are those of its items, one after another. -/
lemma problems_list (rs : List (Checked α)) : (list rs).problems = rs.flatMap problems := by
  induction rs with
  | nil => rfl
  | cons r rs ih =>
    have hcons : (list (r :: rs)).problems = (List.cons <$> r <*> list rs).problems := rfl
    rw [hcons, problems_seq, problems_map, ih, List.flatMap_cons]

/-- What has no problems is valid. -/
def IsProper (r : Checked α) : Prop := r.problems = [] → ∃ a, r = valid a

lemma isProper_valid (a : α) : (valid a).IsProper := fun _ => ⟨a, rfl⟩

lemma isProper_fail (c : Cause) : (fail c : Checked α).IsProper := by
  intro h
  cases h

lemma IsProper.map {r : Checked α} (h : r.IsProper) (f : α → β) : (f <$> r).IsProper := by
  intro hr
  rw [problems_map] at hr
  obtain ⟨a, rfl⟩ := h hr
  exact ⟨f a, rfl⟩

/-- What is put together of proper results is proper. -/
lemma IsProper.seq {f : Checked (α → β)} {r : Checked α} (hf : f.IsProper) (hr : r.IsProper) :
    (f <*> r).IsProper := by
  intro h
  rw [problems_seq, List.append_eq_nil_iff] at h
  obtain ⟨g, rfl⟩ := hf h.1
  obtain ⟨a, rfl⟩ := hr h.2
  exact ⟨g a, rfl⟩

/-- A step into a value leaves a proper result proper. -/
lemma IsProper.under {r : Checked α} (h : r.IsProper) (step : PathStep) :
    (r.under step).IsProper := by
  intro hr
  rw [problems_under, List.map_eq_nil_iff] at hr
  obtain ⟨a, rfl⟩ := h hr
  exact ⟨a, rfl⟩

/-- A list of proper results is proper. -/
lemma isProper_list {rs : List (Checked α)} (h : ∀ r ∈ rs, r.IsProper) : (list rs).IsProper := by
  induction rs with
  | nil => exact isProper_valid []
  | cons r rs ih =>
    rw [List.forall_mem_cons] at h
    exact (h.1.map List.cons).seq (ih h.2)

/-! ### Valid values -/

lemma map_eq_valid_iff {f : α → β} {r : Checked α} {b : β} :
    f <$> r = valid b ↔ ∃ a, r = valid a ∧ f a = b := by
  cases r <;> simp [Functor.map, map]

lemma seq_eq_valid_iff {γ : Type} {f : α → β → γ} {r : Checked α} {s : Checked β} {c : γ} :
    f <$> r <*> s = valid c ↔ ∃ a b, r = valid a ∧ s = valid b ∧ f a b = c := by
  cases r <;> cases s <;> simp [Functor.map, Seq.seq, map, apply]

lemma under_eq_valid_iff {step : PathStep} {r : Checked α} {a : α} :
    r.under step = valid a ↔ r = valid a := by
  cases r <;> simp [under]

/-- A list is valid if each of its items is. -/
lemma list_eq_valid_iff {rs : List (Checked α)} {as : List α} :
    list rs = valid as ↔ rs = as.map valid := by
  induction rs generalizing as with
  | nil => cases as <;> simp [list]
  | cons r rs ih =>
    have hcons : list (r :: rs) = List.cons <$> r <*> list rs := rfl
    rw [hcons, seq_eq_valid_iff]
    cases as with
    | nil => simp
    | cons a as => simp [ih, ← and_assoc]

end Checked

end Schematic
