import Schematic.Proofs.Double.Shortest
import Schematic.Proofs.Value.Entries

/-!
# Keys that are the same

What a map binds must be hashable: no collection but a tuple of hashable values. Two hashable values
that are both the same as a third one are the same. So when a map binds each key once, and all of
its entries are found in a map with as many entries, then they are all the entries of that map.
-/

namespace Schematic

/-! ### Doubles -/

namespace Magnitude

lemma steps_lt (m : Magnitude) {k : Nat} (h : m.exponent ≤ k) : m.steps < 2 ^ 53 * 2 ^ k :=
  Nat.mul_lt_mul_of_lt_of_le m.mantissa_lt (Nat.pow_le_pow_right Nat.two_pos h) (Nat.two_pow_pos k)

/-- Larger exponents make larger magnitudes. -/
lemma steps_lt_of_exponent_lt {m n : Magnitude} (h : m.exponent < n.exponent) :
    m.steps < n.steps := by
  have hnormal : 2 ^ 52 ≤ n.mantissa := n.normal.resolve_left (by omega)
  calc m.steps
      < 2 ^ 53 * 2 ^ m.exponent := m.steps_lt (Nat.le_refl _)
    _ = 2 ^ 52 * 2 ^ (m.exponent + 1) := by ring
    _ ≤ n.mantissa * 2 ^ n.exponent := Nat.mul_le_mul hnormal (Nat.pow_le_pow_right (by decide) h)

/-- Each number of steps has one magnitude. -/
lemma steps_injective : Function.Injective steps := by
  intro m n h
  have hexponent : m.exponent = n.exponent := by
    rcases Nat.lt_trichotomy m.exponent n.exponent with hlt | heq | hlt
    · exact absurd h (steps_lt_of_exponent_lt hlt).ne
    · exact heq
    · exact absurd h (steps_lt_of_exponent_lt hlt).ne'
  have hmantissa : m.mantissa = n.mantissa := by
    rw [steps, steps, hexponent] at h
    exact Nat.eq_of_mul_eq_mul_right (by positivity) h
  cases m
  cases n
  simp_all

end Magnitude

/-- The number of steps of a finite double, and any other double itself. -/
def Double.measure (x : Double) : Int ⊕ Double :=
  match x.steps? with
  | some steps => .inl steps
  | none => .inr x

lemma Double.measure_eq_inl_iff {x : Double} {n : Int} :
    x.measure = .inl (n * stepsOfOne) ↔ x.isInt n = true := by
  cases x <;> simp [measure, isInt, steps?]

/-- The measure of a double tells which doubles are the same. -/
lemma Double.measure_eq_iff {x y : Double} : x.measure = y.measure ↔ x.same y = true := by
  cases x with
  | finite a m =>
    cases y with
    | finite b n =>
      have hinj : m.steps = n.steps ↔ m = n := Magnitude.steps_injective.eq_iff
      simp only [measure, steps?, Sum.inl.injEq, same, Bool.and_eq_true, decide_eq_true_eq,
        Bool.or_eq_true, beq_iff_eq, ← hinj]
      cases a <;> cases b <;> simp <;> omega
    | infinite _ | nan _ => simp [measure, steps?, same]
  | infinite _ | nan _ => cases y <;> simp [measure, steps?, same]

/-- Two times are the same if both have an offset, or none, and the moments agree. -/
lemma DateTime.same_iff {s t : DateTime} :
    s.same t = true ↔ s.offset.isSome = t.offset.isSome ∧
      s.localMicroseconds - s.offset.getD 0 * 60000000
        = t.localMicroseconds - t.offset.getD 0 * 60000000 := by
  unfold same
  cases s.offset <;> cases t.offset <;> simp

namespace Value

/-! ### What sameness compares -/

/-- What sameness compares of a value that is no collection. A moment counts by its microseconds, in
universal time if it has an offset. -/
inductive Essence where
  | null
  | number (measure : Int ⊕ Double)
  | text (t : Text)
  | bytes (bs : List UInt8)
  | date (d : Date)
  | moment (universal : Bool) (microseconds : Int)

/-- The essence of a value that is no collection. -/
def essence? : Value → Option Essence
  | .null => some .null
  | .bool b => some (.number (.inl ((if b then 1 else 0) * Double.stepsOfOne)))
  | .int n => some (.number (.inl (n * Double.stepsOfOne)))
  | .float x => some (.number x.measure)
  | .text t => some (.text t)
  | .bytes bs => some (.bytes bs)
  | .date d => some (.date d)
  | .dateTime t =>
    some (.moment t.offset.isSome (t.localMicroseconds - t.offset.getD 0 * 60000000))
  | .list _ | .tuple _ | .set _ | .map _ => none

lemma essence?_of_integer? {v : Value} {n : Int} (h : v.integer? = some n) :
    v.essence? = some (.number (.inl (n * Double.stepsOfOne))) := by
  cases v <;> simp_all [integer?, essence?]

/-- Values that are no collections are the same if they have the same essence. -/
lemma sameScalar_iff {v w : Value} :
    v.sameScalar w = true ↔ v.essence? = w.essence? ∧ v.essence? ≠ none := by
  have hsteps {m n : Int} : m * Double.stepsOfOne = n * Double.stepsOfOne ↔ m = n := by
    have hpos := Double.stepsOfOne_pos
    exact ⟨fun h => Int.eq_of_mul_eq_mul_right (by omega) h, fun h => by rw [h]⟩
  unfold sameScalar
  cases hv : v.integer? with
  | some m =>
    rw [essence?_of_integer? hv]
    cases hw : w.integer? with
    | some n =>
      simp only [essence?_of_integer? hw, Option.some.injEq, Essence.number.injEq, Sum.inl.injEq,
        hsteps, beq_iff_eq, ne_eq, reduceCtorEq, not_false_eq_true, and_true]
    | none =>
      cases w <;> simp [integer?] at hw <;>
        simp [essence?, eq_comm (a := Sum.inl _), Double.measure_eq_inl_iff]
  | none =>
    cases hw : w.integer? with
    | some n =>
      rw [essence?_of_integer? hw]
      cases v <;> simp [integer?] at hv <;> simp [essence?, Double.measure_eq_inl_iff]
    | none =>
      cases v <;> simp [integer?] at hv <;> cases w <;> simp [integer?] at hw <;>
        simp [essence?, Double.measure_eq_iff, DateTime.same_iff]

/-! ### Keys -/

mutual

/-- The value can be a key: it is no collection but a tuple of such values. -/
def IsHashable : Value → Prop
  | .tuple vs => AreHashable vs
  | .list _ | .set _ | .map _ => False
  | .null | .bool _ | .int _ | .float _ | .text _ | .bytes _ | .date _ | .dateTime _ => True

/-- All values can be keys. -/
def AreHashable : List Value → Prop
  | [] => True
  | v :: vs => v.IsHashable ∧ AreHashable vs

end

lemma same_eq_sameScalar {v w : Value} (h : v.essence? ≠ none) : v.same w = v.sameScalar w := by
  cases v <;> simp_all [essence?, same]

lemma essence?_eq_of_same {v w : Value} (h : v.same w = true) : v.essence? = w.essence? := by
  by_cases hv : v.essence? = none
  · cases v <;> simp [essence?] at hv <;> cases w <;> simp_all [same, essence?]
  · rw [same_eq_sameScalar hv] at h
    exact (sameScalar_iff.mp h).1

mutual

/-- Two keys that are both the same as a third one are the same. -/
theorem same_of_same_of_same (u v w : Value) (hu : u.IsHashable) (huw : u.same w = true)
    (hvw : v.same w = true) : u.same v = true := by
  match u with
  | .tuple us =>
    cases w with
    | tuple ws =>
      cases v with
      | tuple vs =>
        simp only [same] at huw hvw ⊢
        exact sameList_of_same_of_same us vs ws hu huw hvw
      | list _ | set _ | map _ => simp [same] at hvw
      | null | bool _ | int _ | float _ | text _ | bytes _ | date _ | dateTime _ =>
        simp [same, sameScalar_iff, essence?] at hvw
    | _ => simp [same] at huw
  | .list _ | .set _ | .map _ => exact absurd hu id
  | .null | .bool _ | .int _ | .float _ | .text _ | .bytes _ | .date _ | .dateTime _ =>
    rw [same_eq_sameScalar (by simp [essence?]), sameScalar_iff] at huw ⊢
    exact ⟨huw.1.trans (essence?_eq_of_same hvw).symm, huw.2⟩

/-- Lists that are the same as one list of keys are the same. -/
theorem sameList_of_same_of_same (us vs ws : List Value) (hus : AreHashable us)
    (huw : sameList us ws = true) (hvw : sameList vs ws = true) : sameList us vs = true := by
  match us, vs, ws with
  | [], [], [] => simp only [sameList]
  | u :: us, v :: vs, w :: ws =>
    simp only [sameList, Bool.and_eq_true] at huw hvw ⊢
    exact ⟨same_of_same_of_same u v w hus.1 huw.1 hvw.1,
      sameList_of_same_of_same us vs ws hus.2 huw.2 hvw.2⟩
  | [], _ :: _, [] | _ :: _, [], [] | _ :: _, _ :: _, [] | [], [], _ :: _ | [], _ :: _, _ :: _
  | _ :: _, [], _ :: _ => simp_all [sameList]

end

end Value

/-- If all elements of a list have partners in a list of the same length, and no two of them have
one in common, then all elements of the other list are partners. -/
lemma List.exists_of_exclusive {α β : Type} {R : α → β → Prop} {as : List α} {bs : List β}
    (hlength : as.length = bs.length) (hpartner : ∀ a ∈ as, ∃ b ∈ bs, R a b)
    (hexclusive : as.Pairwise fun a a' => ∀ b, R a b → ¬ R a' b) : ∀ b ∈ bs, ∃ a ∈ as, R a b := by
  induction as generalizing bs with
  | nil =>
    rw [List.length_nil, eq_comm, List.length_eq_zero_iff] at hlength
    simp [hlength]
  | cons a as ih =>
    rw [List.pairwise_cons] at hexclusive
    rw [List.forall_mem_cons] at hpartner
    obtain ⟨⟨b, hb, hab⟩, hpartner⟩ := hpartner
    obtain ⟨front, back, rfl⟩ := List.append_of_mem hb
    have hrest : ∀ a' ∈ as, ∃ b' ∈ front ++ back, R a' b' := by
      -- The partner of the first is left out: the others have partners among the rest.
      intro a' ha'
      obtain ⟨b', hb', hR⟩ := hpartner a' ha'
      have hne : b' ≠ b := by
        rintro rfl
        exact hexclusive.1 a' ha' b' hab hR
      exact ⟨b', by simp_all, hR⟩
    have hshort : as.length = (front ++ back).length := by
      simp only [List.length_cons, List.length_append] at hlength ⊢
      omega
    have hfound := ih hshort hrest hexclusive.2
    intro b' hb'
    by_cases hbb : b' = b
    · exact ⟨a, List.mem_cons_self, hbb ▸ hab⟩
    · obtain ⟨a', ha', hR⟩ := hfound b' (by simp_all)
      exact ⟨a', List.mem_cons_of_mem _ ha', hR⟩

namespace Value

variable {es fs : List (Value × Value)}

/-- Entries with distinct keys that are all found among as many others are all of these. -/
lemma exists_same_of_allEntries (hlength : es.length = fs.length) (h : allEntries es fs = true)
    (hdistinct : HaveDistinctKeys es) (hkeys : ∀ e ∈ es, e.1.IsHashable) :
    ∀ f ∈ fs, ∃ e ∈ es, e.1.same f.1 = true ∧ e.2.same f.2 = true := by
  refine List.exists_of_exclusive hlength (allEntries_iff.mp h) ?_
  refine List.Pairwise.imp_of_mem ?_ hdistinct
  rintro e e' he - hne f ⟨hef, -⟩ ⟨hef', -⟩
  rw [same_of_same_of_same e.1 e'.1 f.1 (hkeys e he) hef hef'] at hne
  cases hne

end Value

end Schematic
