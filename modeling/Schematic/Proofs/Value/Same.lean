import Mathlib.Tactic.Lemma
import Schematic.Component

/-!
# Sameness of values

Sameness is reflexive: every value is the same as itself, a NaN by its payload and a map by finding
each of its entries in itself. Hence a component is the same as itself.
-/

namespace Schematic

@[simp] lemma Double.same_refl (x : Double) : x.same x = true := by
  cases x <;> simp [Double.same]

@[simp] lemma DateTime.same_refl (t : DateTime) : t.same t = true := by
  unfold DateTime.same
  cases t.offset <;> simp

namespace Value

mutual

/-- A value is the same as itself. -/
theorem same_refl (v : Value) : v.same v = true := by
  match v with
  | .list vs => simp only [same, sameList_refl vs]
  | .tuple vs => simp only [same, sameList_refl vs]
  | .set vs => simp [same, allMembers_of_subset vs vs (List.Subset.refl vs)]
  | .map es => simp [same, allEntries_of_subset es es (List.Subset.refl es)]
  | .null | .bool _ | .int _ | .float _ | .text _ | .bytes _ | .date _ | .dateTime _ =>
    simp [same, sameScalar, integer?]

/-- A list is the same as itself. -/
theorem sameList_refl (vs : List Value) : sameList vs vs = true := by
  match vs with
  | [] => simp only [sameList]
  | v :: vs => simp only [sameList, same_refl v, sameList_refl vs, Bool.and_self]

/-- All members of a set are in a greater one. -/
theorem allMembers_of_subset (vs ws : List Value) (h : vs ⊆ ws) : allMembers vs ws = true := by
  match vs with
  | [] => simp only [allMembers]
  | v :: vs =>
    rw [List.cons_subset] at h
    simp only [allMembers, Bool.and_eq_true, List.any_eq_true]
    exact ⟨⟨v, h.1, same_refl v⟩, allMembers_of_subset vs ws h.2⟩

/-- All entries of a map are in a greater one. -/
theorem allEntries_of_subset (es fs : List (Value × Value)) (h : es ⊆ fs) :
    allEntries es fs = true := by
  match es with
  | [] => simp only [allEntries]
  | (k, v) :: es =>
    rw [List.cons_subset] at h
    simp only [allEntries, Bool.and_eq_true, List.any_eq_true]
    exact ⟨⟨(k, v), h.1, same_refl k, same_refl v⟩, allEntries_of_subset es fs h.2⟩

end

end Value

lemma pairwiseSame_refl {α : Type} {same : α → α → Bool} (h : ∀ a, same a a = true) (as : List α) :
    pairwiseSame same as as = true := by
  induction as with
  | nil => rfl
  | cons a as ih => simp only [pairwiseSame, h, ih, Bool.and_self]

/-- A component is the same as itself. -/
@[simp] lemma Component.same_refl (c : Component) : c.same c = true := by
  have hp : ∀ p : Parameter, p.same p = true := fun p => by
    simp [Parameter.same, Value.same_refl]
  have hs : ∀ s : WorkloadSetting, s.same s = true := fun s => by
    simp [WorkloadSetting.same, Value.same_refl]
  simp [Component.same, pairwiseSame_refl hp, pairwiseSame_refl hs]

end Schematic
