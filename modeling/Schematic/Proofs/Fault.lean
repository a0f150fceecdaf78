import Mathlib.Data.List.Basic
import Mathlib.Tactic.Lemma

/-!
# Computations that stop at the first fault

A check that finds a fault or lets a result pass is `unlessFault`. Checks in a row, and a traversal
of a list, are again of that form: the fault is the first one that any of them finds.
-/

namespace Schematic

variable {ε ε' α β : Type}

@[simp]
lemma ok_bind (a : α) (f : α → Except ε β) : (Except.ok a >>= f) = f a := rfl

@[simp]
lemma error_bind (e : ε) (f : α → Except ε β) : (Except.error e >>= f) = .error e := rfl

lemma except_map_bind {γ : Type} (x : Except ε α) (f : α → Except ε β) (g : β → γ) :
    (x >>= f).map g = x >>= fun a => (f a).map g := by
  cases x <;> rfl

/-- A computation that succeeds has succeeded up to each of its parts. -/
lemma exists_of_bind_eq_ok {x : Except ε α} {f : α → Except ε β} {b : β} (h : (x >>= f) = .ok b) :
    ∃ a, x = .ok a ∧ f a = .ok b := by
  cases x with
  | error e => cases h
  | ok a => exact ⟨a, rfl, h⟩

/-- A computation that fails fails in its first part, or in what follows. -/
lemma bind_eq_error {x : Except ε α} {f : α → Except ε β} {e : ε} :
    (x >>= f) = .error e ↔ x = .error e ∨ ∃ a, x = .ok a ∧ f a = .error e := by
  cases x <;> simp

/-- A traversal fails at the first item at which its step fails. -/
lemma mapM_eq_error_iff {f : α → Except ε β} {as : List α} {e : ε} :
    as.mapM f = .error e ↔
      ∃ before a after, as = before ++ a :: after ∧ (∀ b ∈ before, ∃ c, f b = .ok c) ∧
        f a = .error e := by
  induction as with
  | nil => simp [pure, Except.pure]
  | cons a as ih =>
    rw [List.mapM_cons, bind_eq_error]
    constructor
    · -- Either the first element fails, or an element after it, and then the first one is in front.
      rintro (h | ⟨b, hb, h⟩)
      · exact ⟨[], a, as, rfl, List.forall_mem_nil _, h⟩
      · rw [bind_eq_error] at h
        rcases h with h | ⟨bs, -, h⟩
        · obtain ⟨before, a', after, rfl, hbefore, h⟩ := ih.mp h
          exact ⟨a :: before, a', after, rfl, List.forall_mem_cons.mpr ⟨⟨b, hb⟩, hbefore⟩, h⟩
        · cases h
    · -- What is in front of the failing element is empty, or has a first element that succeeds.
      rintro ⟨before, a', after, has, hbefore, h⟩
      cases before with
      | nil =>
        obtain ⟨rfl, -⟩ := List.cons.inj has
        exact .inl h
      | cons b before =>
        obtain ⟨rfl, rfl⟩ := List.cons.inj has
        obtain ⟨⟨c, hc⟩, hrest⟩ := List.forall_mem_cons.mp hbefore
        exact .inr ⟨c, hc, bind_eq_error.mpr (.inl (ih.mpr ⟨before, a', after, rfl, hrest, h⟩))⟩

/-- A traversal succeeds by the results of its steps. -/
lemma forall₂_of_mapM_eq_ok {f : α → Except ε β} {as : List α} {bs : List β}
    (h : as.mapM f = .ok bs) :
    List.Forall₂ (fun a b => f a = .ok b) as bs := by
  induction as generalizing bs with
  | nil =>
    cases h
    exact .nil
  | cons a as ih =>
    rw [List.mapM_cons] at h
    obtain ⟨b, hb, h⟩ := exists_of_bind_eq_ok h
    obtain ⟨bs', hbs, h⟩ := exists_of_bind_eq_ok h
    cases h
    exact .cons hb (ih hbs)

/-- A traversal that succeeds is a map if each of its steps has at most one result. -/
lemma mapM_eq_map_of_ok {f : α → Except ε β} {g : α → β} (h : ∀ a b, f a = .ok b → b = g a)
    {as : List α} {bs : List β} (hbs : as.mapM f = .ok bs) : bs = as.map g := by
  induction as generalizing bs with
  | nil => exact (Except.ok.inj hbs).symm
  | cons a as ih =>
    rw [List.mapM_cons] at hbs
    obtain ⟨b, hb, hbs⟩ := exists_of_bind_eq_ok hbs
    obtain ⟨bs', hbs', heq⟩ := exists_of_bind_eq_ok hbs
    rw [← Except.ok.inj heq, h a b hb, ih hbs']
    rfl

/-- A traversal changes nothing if none of its steps does. -/
lemma mapM_eq_self {f : α → Except ε α} {as : List α} (h : ∀ a ∈ as, f a = .ok a) :
    as.mapM f = .ok as := by
  induction as with
  | nil => rfl
  | cons a as ih =>
    rw [List.mapM_cons, h a List.mem_cons_self, ih fun b hb => h b (List.mem_cons_of_mem a hb)]
    rfl

lemma mapError_eq_error {f : ε → ε'} {x : Except ε α} {e' : ε'} :
    x.mapError f = .error e' ↔ ∃ e, x = .error e ∧ f e = e' := by
  cases x <;> simp [Except.mapError]

lemma mapError_eq_ok {f : ε → ε'} {x : Except ε α} {a : α} : x.mapError f = .ok a ↔ x = .ok a := by
  cases x <;> simp [Except.mapError]

/-- A result, unless there is a fault. -/
def unlessFault (fault? : Option ε) (a : α) : Except ε α :=
  match fault? with
  | some e => .error e
  | none => .ok a

@[simp]
lemma unlessFault_some (e : ε) (a : α) : unlessFault (some e) a = .error e := rfl

@[simp]
lemma unlessFault_none (a : α) : unlessFault (none : Option ε) a = .ok a := rfl

lemma mapError_unlessFault (f : ε → ε') (fault? : Option ε) (a : α) :
    (unlessFault fault? a).mapError f = unlessFault (fault?.map f) a := by
  cases fault? <;> rfl

/-- A traversal whose steps fail by faults fails by the first fault. -/
lemma mapM_eq_unlessFault {f : α → Except ε β} (as : List α) (fault? : α → Option ε) (g : α → β)
    (h : ∀ a ∈ as, f a = unlessFault (fault? a) (g a)) :
    as.mapM f = unlessFault (as.findSome? fault?) (as.map g) := by
  induction as with
  | nil => rfl
  | cons a as ih =>
    rw [List.mapM_cons, h a List.mem_cons_self, ih fun b hb => h b (List.mem_cons_of_mem a hb),
      List.findSome?_cons]
    cases fault? a with
    | some e => rfl
    | none => cases as.findSome? fault? <;> rfl

/-- The first fault among the elements is the fault of the list. -/
lemma mapM_eq_unlessFault_map {f : α → Except ε' β} (as : List α) (wrap : ε → ε')
    (fault? : α → Option ε) (g : α → β)
    (h : ∀ a ∈ as, f a = unlessFault ((fault? a).map wrap) (g a)) :
    as.mapM f = unlessFault ((as.findSome? fault?).map wrap) (as.map g) := by
  rw [mapM_eq_unlessFault as _ g h, List.map_findSome?]
  rfl

/-! ### Results under a condition -/

/-- A computation gives a result under a condition, and otherwise it fails by a fault of some
kind. -/
def GivesIf (kind : ε → Prop) (p : Prop) (r : Except ε α) (a : α) : Prop :=
  (p → r = .ok a) ∧ (¬ p → ∃ e, r = .error e ∧ kind e)

section

variable {kind : ε → Prop} {p q : Prop} {r : Except ε α} {a : α} {b : β}

lemma GivesIf.of_eq_ok (h : r = .ok a) : GivesIf kind True r a :=
  ⟨fun _ => h, fun hp => absurd trivial hp⟩

lemma GivesIf.congr (h : GivesIf kind p r a) (hpq : p ↔ q) : GivesIf kind q r a := by
  rwa [← propext hpq]

/-- A computation whose first step succeeds is the rest of it. -/
lemma GivesIf.bind {f : α → Except ε β} (h : GivesIf kind p r a) (hf : GivesIf kind q (f a) b) :
    GivesIf kind (p ∧ q) (r >>= f) b := by
  by_cases hp : p
  · rw [h.1 hp, ok_bind]
    exact hf.congr (by simp [hp])
  · obtain ⟨e, hr, he⟩ := h.2 hp
    exact ⟨fun hpq => absurd hpq.1 hp, fun _ => ⟨e, by rw [hr]; rfl, he⟩⟩

lemma GivesIf.map {f : α → Except ε β} (h : GivesIf kind p r a) (hf : f a = .ok b) :
    GivesIf kind p (r >>= f) b :=
  (h.bind (.of_eq_ok hf)).congr (by rw [and_true])

end

end Schematic
