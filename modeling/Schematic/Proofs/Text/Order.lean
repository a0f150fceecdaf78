import Mathlib.Data.List.Sort
import Mathlib.Tactic.Lemma
import Schematic.Text

/-!
# The order of texts

Texts are ordered as the numbers of their code points are, and no two of them are equal in this
order. So texts that are sorted are the same in whatever order they were given.
-/

namespace Schematic

/-- Different code points have different numbers. -/
lemma CodePoint.value_injective : Function.Injective CodePoint.value := by
  intro c d h
  cases c with
  | char c =>
    cases d with
    | char d => rw [Char.toNat_inj.mp h]
    | lone d =>
      have hc : c.toNat.isValidChar := c.valid
      simp only [value, Nat.isValidChar] at h hc
      omega
  | lone c =>
    cases d with
    | char d =>
      have hd : d.toNat.isValidChar := d.valid
      simp only [value, Nat.isValidChar] at h hd
      omega
    | lone d =>
      simp only [value] at h
      rw [Fin.ext (by omega : c.val = d.val)]

namespace Text

variable {t u v : Text}

/-- No two texts come both before each other. -/
protected lemma le_antisymm (htu : t.le u = true) (hut : u.le t = true) : t = u := by
  induction t generalizing u with
  | nil =>
    cases u with
    | nil => rfl
    | cons d u => simp [le] at hut
  | cons c t ih =>
    cases u with
    | nil => simp [le] at htu
    | cons d u =>
      simp only [le, Bool.or_eq_true, decide_eq_true_eq, Bool.and_eq_true, beq_iff_eq] at htu hut
      have hcd : c.value = d.value := by omega
      rw [CodePoint.value_injective hcd,
        ih (htu.resolve_left (by omega)).2 (hut.resolve_left (by omega)).2]

/-- The order of texts is transitive. -/
protected lemma le_trans (htu : t.le u = true) (huv : u.le v = true) : t.le v = true := by
  induction t generalizing u v with
  | nil => rfl
  | cons c t ih =>
    cases u with
    | nil => simp [le] at htu
    | cons d u =>
      cases v with
      | nil => simp [le] at huv
      | cons e v =>
        simp only [le, Bool.or_eq_true, decide_eq_true_eq, Bool.and_eq_true, beq_iff_eq]
          at htu huv ⊢
        rcases htu with hcd | ⟨hcd, htu⟩
        · left
          omega
        · rcases huv with hde | ⟨hde, huv⟩
          · left
            omega
          · exact .inr ⟨hcd.trans hde, ih htu huv⟩

/-- Of two texts one comes before the other. -/
protected lemma le_total (t u : Text) : (t.le u || u.le t) = true := by
  induction t generalizing u with
  | nil => rfl
  | cons c t ih =>
    cases u with
    | nil => rfl
    | cons d u =>
      have hrest : le t u = true ∨ le u t = true := by simpa using ih u
      simp only [le, Bool.or_eq_true, decide_eq_true_eq, Bool.and_eq_true, beq_iff_eq]
      rcases Nat.lt_trichotomy c.value d.value with hcd | hcd | hcd
      · exact .inl (.inl hcd)
      · exact hrest.imp (fun h => .inr ⟨hcd, h⟩) fun h => .inr ⟨hcd.symm, h⟩
      · exact .inr (.inl hcd)

/-- To sort texts is to forget their order. -/
lemma mergeSort_eq_of_perm {ts us : List Text} (h : ts.Perm us) :
    ts.mergeSort le = us.mergeSort le := by
  have hsorted (ts : List Text) : (ts.mergeSort le).Pairwise fun t u => t.le u = true :=
    @List.pairwise_mergeSort Text le (fun _ _ _ => Text.le_trans) Text.le_total ts
  have hperm : (ts.mergeSort le).Perm (us.mergeSort le) :=
    ((List.mergeSort_perm ts le).trans h).trans (List.mergeSort_perm us le).symm
  exact List.Perm.eq_of_pairwise (fun _ _ _ _ => Text.le_antisymm) (hsorted ts) (hsorted us) hperm

end Text

end Schematic
