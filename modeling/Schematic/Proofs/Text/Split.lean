import Mathlib.Data.List.TakeWhile
import Mathlib.Tactic.ByContra
import Mathlib.Tactic.Lemma
import Schematic.Text

/-!
# Texts taken apart at a code point

The pieces between the occurrences of a code point do not hold it, and pieces that do not hold it
are found again in their join.
-/

namespace Schematic.Text

variable {c : CodePoint} {t u : Text}

/-- A text that is split has one piece at least. -/
lemma splitAll_ne_nil (c : CodePoint) (t : Text) : splitAll c t ≠ [] := by
  cases t with
  | nil => simp [splitAll]
  | cons d t =>
    rw [splitAll]
    split
    · simp
    · split <;> simp

/-- A text without the separator is one piece. -/
lemma splitAll_eq_self (h : c ∉ t) : splitAll c t = [t] := by
  induction t with
  | nil => rfl
  | cons d t ih =>
    rw [List.mem_cons, not_or] at h
    rw [splitAll, if_neg (Ne.symm h.1), ih h.2]

/-- The first piece ends at the first separator. -/
lemma splitAll_append (h : c ∉ t) : splitAll c (t ++ c :: u) = t :: splitAll c u := by
  induction t with
  | nil => rw [List.nil_append, splitAll, if_pos rfl]
  | cons d t ih =>
    rw [List.mem_cons, not_or] at h
    rw [List.cons_append, splitAll, if_neg (Ne.symm h.1), ih h.2]

/-- A text is split at its first separator. -/
lemma splitFirst?_append (h : c ∉ t) : splitFirst? c (t ++ c :: u) = some (t, u) := by
  have hne : ∀ d ∈ t, (d != c) = true := by
    intro d hd
    simpa using fun heq : d = c => h (heq ▸ hd)
  rw [splitFirst?, List.dropWhile_append_of_pos hne, List.takeWhile_append_of_pos hne]
  simp

/-- A text without the separator is not split. -/
lemma splitFirst?_eq_none (h : c ∉ t) : splitFirst? c t = none := by
  have hdrop : t.dropWhile (· != c) = [] := by
    rw [List.dropWhile_eq_nil_iff]
    intro d hd
    simpa using fun heq : d = c => h (heq ▸ hd)
  rw [splitFirst?, hdrop]

lemma splitFirst?_eq_none_iff : splitFirst? c t = none ↔ c ∉ t := by
  refine ⟨fun h hmem => ?_, splitFirst?_eq_none⟩
  obtain ⟨before, after, rfl, hbefore⟩ := List.eq_append_cons_of_mem hmem
  rw [splitFirst?_append hbefore] at h
  cases h

/-- A text is taken apart at the first occurrence of a code point. -/
lemma splitFirst?_eq_some_iff {before after : Text} :
    splitFirst? c t = some (before, after) ↔ before ++ c :: after = t ∧ c ∉ before := by
  constructor
  · intro h
    have hmem : c ∈ t := by
      by_contra hnot
      rw [splitFirst?_eq_none hnot] at h
      cases h
    obtain ⟨first, rest, rfl, hfirst⟩ := List.eq_append_cons_of_mem hmem
    rw [splitFirst?_append hfirst] at h
    cases h
    exact ⟨rfl, hfirst⟩
  · rintro ⟨rfl, h⟩
    exact splitFirst?_append h

/-- What stands after some occurrence of a code point also stands after the first one. -/
lemma exists_splitFirst?_append (c : CodePoint) (t u : Text) :
    ∃ before after, splitFirst? c (t ++ c :: u) = some (before, after) ∧ u ⊆ after := by
  by_cases h : c ∈ t
  · obtain ⟨before, after, rfl, hbefore⟩ := List.eq_append_cons_of_mem h
    refine ⟨before, after ++ c :: u, ?_, ?_⟩
    · rw [List.append_assoc, List.cons_append]
      exact splitFirst?_append hbefore
    · exact fun d hd => List.mem_append_right after (List.mem_cons_of_mem c hd)
  · exact ⟨t, u, splitFirst?_append h, List.Subset.refl u⟩

/-- No piece holds the separator. -/
lemma not_mem_of_mem_splitAll {piece : Text} (h : piece ∈ splitAll c t) : c ∉ piece := by
  induction t generalizing piece with
  | nil => simp_all [splitAll]
  | cons d t ih =>
    rw [splitAll] at h
    split at h
    · rcases List.mem_cons.mp h with rfl | h
      · simp
      · exact ih h
    · next hd =>
      split at h
      · next hnil => exact absurd hnil (splitAll_ne_nil c t)
      · next first pieces hpieces =>
        rcases List.mem_cons.mp h with rfl | h
        · rw [List.mem_cons, not_or]
          exact ⟨Ne.symm hd, ih (by rw [hpieces]; exact List.mem_cons_self)⟩
        · exact ih (by rw [hpieces]; exact List.mem_cons_of_mem _ h)

lemma join_cons_cons (separator t u : Text) (ts : List Text) :
    join separator (t :: u :: ts) = t ++ (separator ++ join separator (u :: ts)) := by
  simp [join, List.intersperse]

@[simp]
lemma join_singleton (separator t : Text) : join separator [t] = t := by
  simp [join]

/-- Pieces that do not hold a code point are found again in their join. -/
lemma splitAll_join {pieces : List Text} (hne : pieces ≠ []) (h : ∀ p ∈ pieces, c ∉ p) :
    splitAll c (join [c] pieces) = pieces := by
  match pieces with
  | [p] => rw [join_singleton, splitAll_eq_self (h p List.mem_cons_self)]
  | p :: q :: pieces =>
    rw [join_cons_cons, List.singleton_append, splitAll_append (h p List.mem_cons_self),
      splitAll_join (List.cons_ne_nil q pieces) fun r hr => h r (List.mem_cons_of_mem p hr)]

end Schematic.Text
