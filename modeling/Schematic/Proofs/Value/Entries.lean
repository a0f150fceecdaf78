import Mathlib.Tactic.Lemma
import Schematic.Value

/-!
# Maps that are bound entry by entry

A map that is made of entries keeps all of them, in their order, exactly if no two keys are the
same; it has fewer entries otherwise. What an entry is found by is a text, and the order of entries
with different keys does not matter to that.
-/

namespace Schematic.Value

variable {key value : Value} {es fs : List (Value × Value)}

/-- A key that is not there comes last. -/
lemma bind_of_ne (h : ∀ e ∈ es, e.1.same key = false) :
    bind key value es = es ++ [(key, value)] := by
  induction es with
  | nil => rfl
  | cons e es ih =>
    rw [List.forall_mem_cons] at h
    rw [bind, h.1, if_neg Bool.false_ne_true, ih h.2, List.cons_append]

/-- A key that is there is not bound a second time. -/
lemma length_bind_of_mem (h : ∃ e ∈ es, e.1.same key = true) :
    (bind key value es).length = es.length := by
  induction es with
  | nil => simp at h
  | cons e es ih =>
    rw [bind]
    split
    case isTrue => rfl
    case isFalse hne =>
      obtain ⟨f, hf, hsame⟩ := h
      rcases List.mem_cons.mp hf with rfl | hf
      · exact absurd hsame hne
      · rw [List.length_cons, List.length_cons, ih ⟨f, hf, hsame⟩]

/-- A key comes last, or it was there. -/
lemma bind_eq_append_or (key value : Value) (es : List (Value × Value)) :
    ((∀ e ∈ es, e.1.same key = false) ∧ bind key value es = es ++ [(key, value)]) ∨
      (bind key value es).length = es.length := by
  by_cases h : ∃ e ∈ es, e.1.same key = true
  · exact .inr (length_bind_of_mem h)
  · simp only [not_exists, not_and, Bool.not_eq_true] at h
    exact .inl ⟨h, bind_of_ne h⟩

/-- No two keys of some entries are the same. -/
def HaveDistinctKeys (es : List (Value × Value)) : Prop :=
  es.Pairwise fun e f => e.1.same f.1 = false

/-- Entries with distinct keys are bound in their order. -/
lemma foldl_bind_eq_append (h : HaveDistinctKeys (fs ++ es)) :
    es.foldl (fun es e => bind e.1 e.2 es) fs = fs ++ es := by
  induction es generalizing fs with
  | nil => simp
  | cons e es ih =>
    have hne : ∀ f ∈ fs, f.1.same e.1 = false := fun f hf =>
      (List.pairwise_append.mp h).2.2 f hf e List.mem_cons_self
    rw [← List.singleton_append, ← List.append_assoc] at h ⊢
    rw [List.foldl_append]
    simpa [bind_of_ne hne] using ih h

/-- Binding entries makes no more of them. -/
lemma length_foldl_bind_le (es fs : List (Value × Value)) :
    (es.foldl (fun es e => bind e.1 e.2 es) fs).length ≤ fs.length + es.length := by
  induction es generalizing fs with
  | nil => exact Nat.le_refl _
  | cons e es ih =>
    have hle := ih (bind e.1 e.2 fs)
    rw [List.foldl_cons, List.length_cons]
    rcases bind_eq_append_or e.1 e.2 fs with ⟨-, heq⟩ | heq
    · rw [heq, List.length_append, List.length_singleton] at hle
      rw [heq]
      omega
    · omega

/-- Entries of which none is lost have distinct keys. -/
lemma haveDistinctKeys_of_length (hfs : HaveDistinctKeys fs)
    (h : (es.foldl (fun es e => bind e.1 e.2 es) fs).length = fs.length + es.length) :
    HaveDistinctKeys (fs ++ es) := by
  induction es generalizing fs with
  | nil => rwa [List.append_nil]
  | cons e es ih =>
    rw [List.foldl_cons, List.length_cons] at h
    rcases bind_eq_append_or e.1 e.2 fs with ⟨hne, heq⟩ | heq
    · have hdistinct : HaveDistinctKeys (fs ++ [e]) :=
        List.pairwise_append.mpr ⟨hfs, List.pairwise_singleton _ _, by simpa using hne⟩
      rw [← List.singleton_append, ← List.append_assoc]
      refine ih hdistinct ?_
      rw [heq] at h
      rw [h, List.length_append, List.length_singleton]
      omega
    · have hle := length_foldl_bind_le es (bind e.1 e.2 fs)
      omega

/-- Entries with distinct keys make a map as they stand. -/
theorem ofEntries_eq_map (h : HaveDistinctKeys es) : ofEntries es = .map es :=
  congrArg Value.map (foldl_bind_eq_append (List.nil_append es ▸ h))

/-- A map of entries that has as many of them has distinct keys. -/
theorem exists_ofEntries_eq (es : List (Value × Value)) :
    ∃ fs, ofEntries es = .map fs ∧ (fs.length = es.length → fs = es ∧ HaveDistinctKeys es) := by
  refine ⟨_, rfl, fun h => ?_⟩
  have hdistinct : HaveDistinctKeys ([] ++ es) :=
    haveDistinctKeys_of_length List.Pairwise.nil (by rw [h, List.length_nil, Nat.zero_add])
  exact ⟨foldl_bind_eq_append hdistinct, hdistinct⟩

/-- Entries are the same if each has its counterpart. -/
lemma allEntries_iff :
    allEntries es fs = true ↔ ∀ e ∈ es, ∃ f ∈ fs, e.1.same f.1 = true ∧ e.2.same f.2 = true := by
  induction es with
  | nil => simp [allEntries]
  | cons e es ih =>
    obtain ⟨k, v⟩ := e
    simp [allEntries, ih]

@[simp]
lemma same_text (t u : Text) : (text t).same (.text u) = (t == u) := by
  simp [same, sameScalar, integer?]

lemma same_text_iff {t u : Text} : (text t).same (.text u) = true ↔ t = u := by
  rw [same_text, beq_iff_eq]

/-! ### Entries by their names -/

variable {name : Text} {k v : Value}

/-- Only a text is the same as a text. -/
lemma same_text_iff_eq {t : Text} : v.same (.text t) = true ↔ v = .text t := by
  cases v <;> simp [same, sameScalar, integer?]

lemma get?_append (name : Text) (es fs : List (Value × Value)) :
    get? name (es ++ fs) = (get? name es).or (get? name fs) := by
  simp only [get?, List.find?_append, Option.map_or]

lemma get?_cons_self (name : Text) (v : Value) (es : List (Value × Value)) :
    get? name ((.text name, v) :: es) = some v := by
  simp [get?]

lemma get?_cons_of_ne (h : k ≠ .text name) : get? name ((k, v) :: es) = get? name es := by
  have hsame : ¬ k.same (.text name) = true := mt same_text_iff_eq.mp h
  simp [get?, hsame]

/-- An entry of another name is passed over. -/
lemma get?_insert_of_ne (h : k ≠ .text name) :
    get? name (es ++ (k, v) :: fs) = get? name (es ++ fs) := by
  rw [get?_append, get?_append, get?_cons_of_ne h]

/-- Where no key stands twice, a name is bound to a value exactly if the value stands beside it. -/
lemma get?_eq_some_iff (h : (es.map Prod.fst).Nodup) :
    get? name es = some v ↔ (.text name, v) ∈ es := by
  induction es with
  | nil => simp [get?]
  | cons e es ih =>
    obtain ⟨k, w⟩ := e
    obtain ⟨hhead, htail⟩ := List.nodup_cons.mp h
    by_cases hk : k = .text name
    · subst hk
      have hnot : (.text name, v) ∉ es := fun hmem => hhead (List.mem_map.mpr ⟨_, hmem, rfl⟩)
      simp [get?_cons_self, hnot, eq_comm]
    · have hne : (Value.text name, v) ≠ (k, w) := fun h => hk (Prod.mk.inj h).1.symm
      simp [get?_cons_of_ne hk, ih htail, hne]

/-- The order of entries does not matter where no key stands twice. -/
lemma get?_perm (h : (es.map Prod.fst).Nodup) (hperm : es.Perm fs) :
    get? name es = get? name fs := by
  ext v
  rw [get?_eq_some_iff h, get?_eq_some_iff ((hperm.map Prod.fst).nodup_iff.mp h), hperm.mem_iff]

end Schematic.Value
