import Schematic.Proofs.Json.Every
import Schematic.Proofs.Json.Excess

/-!
# Data that is read

The lenient reader refuses an integer with too many digits, and of a name that an object repeats it
keeps the last value. So every integer in the data that it reads can be written again, and every
object binds a name once.
-/

namespace Schematic.Json

/-- A property holds of every part of data that can be spelled in a text. -/
structure HoldsOfSpelled (p : Json → Prop) : Prop where
  null : p .null
  bool : ∀ b, p (.bool b)
  int : ∀ n, IsShort (.int n) → p (.int n)
  float : ∀ x, p (.float x)
  text : ∀ t, p (.text t)
  array : ∀ js, p (.array js)
  object : ∀ es, HasDistinctNames (.object es) → p (.object es)

lemma holdsOfSpelled_isShort : HoldsOfSpelled IsShort :=
  ⟨trivial, fun _ => trivial, fun _ h => h, fun _ => trivial, fun _ => trivial, fun _ => trivial,
    fun _ _ => trivial⟩

lemma holdsOfSpelled_hasDistinctNames : HoldsOfSpelled HasDistinctNames :=
  ⟨trivial, fun _ => trivial, fun _ _ => trivial, fun _ => trivial, fun _ => trivial,
    fun _ => trivial, fun _ h => h⟩

variable {p : Json → Prop} {t rest : Text} {j : Json}

/-! ### Names -/

/-- Binding a name adds no other name. -/
lemma mem_names_bind {name other : Text} {es : List (Text × Json)}
    (h : other ∈ (bind name j es).map Prod.fst) : other = name ∨ other ∈ es.map Prod.fst := by
  induction es with
  | nil => exact .inl (List.mem_singleton.mp h)
  | cons e es ih =>
    rw [List.map_cons, List.mem_cons]
    rw [bind] at h
    split at h
    · exact .inr (by rwa [List.map_cons, List.mem_cons] at h)
    · rw [List.map_cons, List.mem_cons] at h
      rcases h with h | h
      · exact .inr (.inl h)
      · exact (ih h).imp_right .inr

/-- Binding a name keeps the names distinct. -/
lemma nodup_bind {name : Text} {es : List (Text × Json)} (h : (es.map Prod.fst).Nodup) :
    ((bind name j es).map Prod.fst).Nodup := by
  induction es with
  | nil => exact List.pairwise_singleton _ name
  | cons e es ih =>
    obtain ⟨hfirst, hes⟩ := List.nodup_cons.mp h
    rw [bind]
    split
    · exact List.nodup_cons.mpr ⟨hfirst, hes⟩
    · next hname =>
      refine List.nodup_cons.mpr ⟨fun hmem => ?_, ih hes⟩
      rcases mem_names_bind hmem with heq | hmem
      · exact hname heq
      · exact hfirst hmem

/-- Binding names one after another binds each of them once. -/
lemma hasDistinctNames_bindAll (es : List (Text × Json)) :
    HasDistinctNames (.object (bindAll es)) := by
  have hfold {fs : List (Text × Json)} (hfs : (fs.map Prod.fst).Nodup) :
      ((es.foldl (fun es e => bind e.1 e.2 es) fs).map Prod.fst).Nodup := by
    induction es generalizing fs with
    | nil => exact hfs
    | cons e es ih => exact ih (nodup_bind hfs)
  exact hfold List.nodup_nil

/-- What holds of the parts of entries holds of them once they are bound. -/
lemma everyEntry_bindAll {es : List (Text × Json)} (hes : EveryEntry p es) :
    EveryEntry p (bindAll es) := by
  have hbind {name : Text} {j : Json} {fs : List (Text × Json)} (hj : j.Every p)
    (hfs : EveryEntry p fs) : EveryEntry p (bind name j fs) := by
    induction fs with
    | nil => exact ⟨hj, trivial⟩
    | cons f fs ih =>
      rw [bind]
      split
      · exact ⟨hj, hfs.2⟩
      · exact ⟨hfs.1, ih hfs.2⟩
  have hfold {fs : List (Text × Json)} (hfs : EveryEntry p fs) :
      EveryEntry p (es.foldl (fun es e => bind e.1 e.2 es) fs) := by
    induction es generalizing fs with
    | nil => exact hfs
    | cons e es ih => exact ih hes.2 (hbind hes.1 hfs)
  exact hfold trivial

/-! ### Numbers -/

/-- A number with few digits is small. -/
lemma digitsValue_lt (h : t.IsDigits) : digitsValue t < 10 ^ t.length := by
  induction t with
  | nil => decide
  | cons c t ih =>
    obtain ⟨hc, ht⟩ := List.forall_mem_cons.mp h
    obtain ⟨d, hd, rfl⟩ := CodePoint.isDigit_iff.mp hc
    have hdigit : digitsValue [.char d.digitChar] = d := by
      simp [digitsValue, CodePoint.hexDigit?_digitChar (Nat.lt_trans hd (by decide))]
    have happend := digitsValue_append [.char d.digitChar] t
    rw [List.singleton_append, hdigit] at happend
    calc digitsValue (.char d.digitChar :: t)
        = d * 10 ^ t.length + digitsValue t := happend
      _ < d * 10 ^ t.length + 10 ^ t.length := Nat.add_lt_add_left (ih ht) _
      _ = (d + 1) * 10 ^ t.length := (Nat.succ_mul _ _).symm
      _ ≤ 10 * 10 ^ t.length := Nat.mul_le_mul_right _ hd
      _ = 10 ^ (t.length + 1) := (Nat.pow_succ').symm

/-- A numeral that is not too long spells a number that is not. -/
lemma Numeral.every_value (hp : HoldsOfSpelled p) {n : Numeral} (hdigits : n.whole.IsDigits)
    (hlong : (n.isWhole && decide (maxDigits < n.whole.length)) = false) : n.value.Every p := by
  rw [value]
  split
  · next hwhole =>
    rw [hwhole, Bool.true_and, decide_eq_false_iff_not, Nat.not_lt] at hlong
    have hlt : digitsValue n.whole < Value.writingLimit :=
      Nat.lt_of_lt_of_le (digitsValue_lt hdigits) (Nat.pow_le_pow_right (by decide) hlong)
    refine hp.int _ ?_
    rw [IsShort]
    split
    · rwa [Int.natAbs_neg]
    · exact hlt
  · exact hp.float _

/-- A property of all that is spelled holds of words and numbers. -/
lemma every_of_wordOrNumber (hp : HoldsOfSpelled p) (h : wordOrNumber t = .ok (j, rest)) :
    j.Every p := by
  unfold wordOrNumber at h
  split at h
  · next w j' hword =>
    cases h
    have hmem := List.mem_of_find?_eq_some hword
    simp only [words, List.mem_cons, Prod.mk.injEq, List.not_mem_nil, or_false] at hmem
    rcases hmem with ⟨-, rfl⟩ | ⟨-, rfl⟩ | ⟨-, rfl⟩ | ⟨-, rfl⟩ | ⟨-, rfl⟩ | ⟨-, rfl⟩
    · exact hp.null
    · exact hp.bool _
    · exact hp.bool _
    · exact hp.float _
    · exact hp.float _
    · exact hp.float _
  · unfold number at h
    split at h
    · cases h
    · next n rest' hnumeral =>
      split at h
      · cases h
      · next hlong =>
        cases h
        exact Numeral.every_value hp (infix_of_numeral? hnumeral).2.1 (by simpa using hlong)

/-! ### Values -/

/-- The property holds of every part of what is read with some fuel. -/
structure AllHold (p : Json → Prop) (fuel : Nat) : Prop where
  value : ∀ {t j rest}, value fuel t = .ok (j, rest) → j.Every p
  items : ∀ {t js rest}, items fuel t = .ok (js, rest) → EveryItem p js
  members : ∀ {t es rest}, members fuel t = .ok (es, rest) → EveryEntry p es

variable {fuel : Nat}

/-- A property of all that is spelled holds of a value, if it holds of what is nested in it. -/
lemma AllHold.succ_value (hfuel : AllHold p fuel) (hp : HoldsOfSpelled p)
    (h : Json.value (fuel + 1) t = .ok (j, rest)) : j.Every p := by
  unfold Json.value at h
  split at h
  · obtain ⟨⟨s, after⟩, -, h⟩ := exists_of_bind_eq_ok h
    cases h
    exact hp.text s
  · split at h
    · cases h
      exact ⟨hp.array _, trivial⟩
    · obtain ⟨⟨js, after⟩, hitems, h⟩ := exists_of_bind_eq_ok h
      cases h
      exact ⟨hp.array js, hfuel.items hitems⟩
  · split at h
    · cases h
      exact ⟨hp.object _ List.nodup_nil, trivial⟩
    · obtain ⟨⟨es, after⟩, hmembers, h⟩ := exists_of_bind_eq_ok h
      cases h
      exact ⟨hp.object _ (hasDistinctNames_bindAll es), everyEntry_bindAll (hfuel.members hmembers)⟩
  · exact every_of_wordOrNumber hp h

/-- A property of all that is spelled holds of each item. -/
lemma AllHold.succ_items (hfuel : AllHold p fuel) {js : List Json}
    (h : Json.items (fuel + 1) t = .ok (js, rest)) : EveryItem p js := by
  rw [Json.items] at h
  obtain ⟨⟨item, after⟩, hitem, h⟩ := exists_of_bind_eq_ok h
  dsimp only at h
  split at h
  · cases h
    exact ⟨hfuel.value hitem, trivial⟩
  · obtain ⟨⟨more, after'⟩, hmore, h⟩ := exists_of_bind_eq_ok h
    cases h
    exact ⟨hfuel.value hitem, hfuel.items hmore⟩
  · cases h

/-- A property of all that is spelled holds of each member. -/
lemma AllHold.succ_members (hfuel : AllHold p fuel) {es : List (Text × Json)}
    (h : Json.members (fuel + 1) t = .ok (es, rest)) : EveryEntry p es := by
  unfold Json.members at h
  split at h
  · obtain ⟨⟨name, after⟩, -, h⟩ := exists_of_bind_eq_ok h
    dsimp only at h
    split at h
    · obtain ⟨⟨item, after'⟩, hitem, h⟩ := exists_of_bind_eq_ok h
      dsimp only at h
      split at h
      · cases h
        exact ⟨hfuel.value hitem, trivial⟩
      · obtain ⟨⟨more, after''⟩, hmore, h⟩ := exists_of_bind_eq_ok h
        cases h
        exact ⟨hfuel.value hitem, hfuel.members hmore⟩
      · cases h
    · cases h
  · cases h

lemma allHold (hp : HoldsOfSpelled p) (fuel : Nat) : AllHold p fuel := by
  induction fuel with
  | zero => constructor <;> intro _ _ _ h <;> cases h
  | succ fuel ih => exact ⟨ih.succ_value hp, ih.succ_items, ih.succ_members⟩

/-- A property of all parts that can be spelled holds of every part of the data that is read. -/
theorem every_of_read (hp : HoldsOfSpelled p) (h : read t = .ok j) : j.Every p := by
  cases hdocument : document t with
  | error e =>
    rw [read, hdocument] at h
    cases h
  | ok j' =>
    rw [read, hdocument] at h
    cases h
    unfold document at hdocument
    split at hdocument
    · cases hdocument
    · obtain ⟨⟨j'', after⟩, hvalue, hdocument⟩ := exists_of_bind_eq_ok hdocument
      dsimp only at hdocument
      split at hdocument
      · cases hdocument
        exact (allHold hp _).value hvalue
      · cases hdocument

end Schematic.Json
