import Schematic.Json.Strict
import Schematic.Proofs.Json.Data

/-!
# Data that is read strictly

The strict reader too keeps the last value of a name that an object repeats.
-/

namespace Schematic.Json.Strict

variable {t rest first : Text} {j : Json} {js : List Json} {es : List (Text × Json)}
  {fuel depth : Nat}

lemma every_value_numeral (n : Numeral) : n.value.Every HasDistinctNames := by
  rw [Numeral.value]
  split
  · trivial
  · trivial

/-- What starts with a word or a number has no names. -/
lemma hasDistinctNames_of_wordOrNumber (h : wordOrNumber t = .ok (j, rest)) :
    j.Every HasDistinctNames := by
  have hword {i : Json} {cs : List Char} {u : Text} (h : (word cs u).map (i, ·) = .ok (j, rest))
      (hi : i.Every HasDistinctNames) : j.Every HasDistinctNames := by
    cases hw : word cs u with
    | ok v =>
      rw [hw] at h
      cases h
      exact hi
    | error e =>
      rw [hw] at h
      cases h
  have hnumber {negative : Bool} {u : Text} (h : number negative u = .ok (j, rest)) :
      j.Every HasDistinctNames := by
    rw [number] at h
    obtain ⟨⟨spelled, afterWhole⟩, -, h⟩ := exists_of_bind_eq_ok h
    obtain ⟨⟨fraction, afterFraction⟩, -, h⟩ := exists_of_bind_eq_ok h
    obtain ⟨⟨exponent, after⟩, -, h⟩ := exists_of_bind_eq_ok h
    cases h
    exact every_value_numeral _
  unfold wordOrNumber at h
  split at h
  · exact hword h trivial
  · exact hword h trivial
  · exact hword h trivial
  · exact hword h trivial
  · exact hword h trivial
  · exact hword h trivial
  · -- What starts like a number is one, with a sign or without.
    exact hnumber h
  · split at h
    · exact hnumber h
    · cases h
  · cases h

/-- No object in what is read with some fuel repeats a name. -/
structure AllDistinct (fuel : Nat) : Prop where
  value : ∀ {depth t j rest}, value fuel depth t = .ok (j, rest) → j.Every HasDistinctNames
  items : ∀ {depth t js rest}, items fuel depth t = .ok (js, rest) → EveryItem HasDistinctNames js
  members : ∀ {depth first t es rest}, members fuel depth first t = .ok (es, rest) →
    EveryEntry HasDistinctNames es

/-- The names of a value are distinct, if those of what is nested in it are. -/
lemma AllDistinct.succ_value (hfuel : AllDistinct fuel)
    (h : Strict.value (fuel + 1) depth t = .ok (j, rest)) :
    j.Every HasDistinctNames := by
  unfold Strict.value at h
  split at h
  · -- A text has no names.
    obtain ⟨⟨s, after⟩, -, h⟩ := exists_of_bind_eq_ok h
    cases h
    trivial
  · split at h
    · cases h
    · cases h
      exact ⟨trivial, trivial⟩
    · -- The items are read with less fuel.
      obtain ⟨-, -, h⟩ := exists_of_bind_eq_ok h
      obtain ⟨⟨js, after⟩, hitems, h⟩ := exists_of_bind_eq_ok h
      cases h
      exact ⟨trivial, hfuel.items hitems⟩
  · split at h
    · cases h
    · cases h
      exact ⟨List.nodup_nil, trivial⟩
    · -- A name that comes again takes the place of the earlier one.
      obtain ⟨⟨first, inner⟩, -, h⟩ := exists_of_bind_eq_ok h
      obtain ⟨-, -, h⟩ := exists_of_bind_eq_ok h
      obtain ⟨⟨es, after⟩, hmembers, h⟩ := exists_of_bind_eq_ok h
      cases h
      exact ⟨hasDistinctNames_bindAll es, everyEntry_bindAll (hfuel.members hmembers)⟩
  · exact hasDistinctNames_of_wordOrNumber h

/-- The names of each item are distinct. -/
lemma AllDistinct.succ_items (hfuel : AllDistinct fuel)
    (h : Strict.items (fuel + 1) depth t = .ok (js, rest)) :
    EveryItem HasDistinctNames js := by
  unfold Strict.items at h
  obtain ⟨⟨item, after⟩, hitem, h⟩ := exists_of_bind_eq_ok h
  dsimp only at h
  split at h
  · cases h
  · cases h
    exact ⟨hfuel.value hitem, trivial⟩
  · split at h
    · cases h
    · cases h
    · obtain ⟨⟨more, after'⟩, hmore, h⟩ := exists_of_bind_eq_ok h
      cases h
      exact ⟨hfuel.value hitem, hfuel.items hmore⟩
  · cases h

/-- The names of each member are distinct. -/
lemma AllDistinct.succ_members (hfuel : AllDistinct fuel)
    (h : Strict.members (fuel + 1) depth first t = .ok (es, rest)) :
    EveryEntry HasDistinctNames es := by
  unfold Strict.members at h
  obtain ⟨⟨item, after⟩, hitem, h⟩ := exists_of_bind_eq_ok h
  dsimp only at h
  split at h
  · cases h
  · cases h
    exact ⟨hfuel.value hitem, trivial⟩
  · split at h
    · cases h
    · cases h
    · obtain ⟨⟨next, inner⟩, -, h⟩ := exists_of_bind_eq_ok h
      obtain ⟨⟨more, after'⟩, hmore, h⟩ := exists_of_bind_eq_ok h
      cases h
      exact ⟨hfuel.value hitem, hfuel.members hmore⟩
  · cases h

/-- The names are distinct with any fuel. -/
lemma allDistinct (fuel : Nat) : AllDistinct fuel := by
  induction fuel with
  | zero =>
    constructor
    · rintro _ _ _ _ ⟨⟩
    · rintro _ _ _ _ ⟨⟩
    · rintro _ _ _ _ _ ⟨⟩
  | succ fuel ih => exact ⟨ih.succ_value, ih.succ_items, ih.succ_members⟩

/-- No object in the data that is read repeats a name. -/
theorem hasDistinctNames_of_read (h : Strict.read t = .ok j) : j.Every HasDistinctNames := by
  rw [Strict.read] at h
  cases hdocument : document t with
  | error e =>
    rw [hdocument] at h
    cases h
  | ok k =>
    rw [hdocument] at h
    cases h
    unfold document at hdocument
    split at hdocument
    · cases hdocument
    · obtain ⟨⟨i, after⟩, hvalue, hdocument⟩ := exists_of_bind_eq_ok hdocument
      dsimp only at hdocument
      split at hdocument
      · cases hdocument
        exact (allDistinct _).value hvalue
      · cases hdocument

end Schematic.Json.Strict
