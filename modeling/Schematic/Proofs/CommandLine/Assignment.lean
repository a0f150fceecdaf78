import Mathlib.Data.List.Forall2
import Schematic.CommandLine.Assignment
import Schematic.Proofs.Component.Resolution
import Schematic.Proofs.Fault
import Schematic.Proofs.Text.Split
import Schematic.Proofs.Yaml.Cause

/-!
# What assignments give

Each item assigns a value to a name, or has something wrong with it. The bindings of items in which
nothing is wrong have the names in the order in which they first came, each with the value that it
was assigned last. Otherwise the first item with something wrong in it is told of, and the message
shows the item or its name. One thing is told of without either: the document of the item holds
something that is spelled like a value and is none.
-/

namespace Schematic

namespace CommandLine

/-! ### Items -/

/-- An item is a name, an equals sign and a document. The name is not empty, and the equals sign is
the first one. -/
structure Names (item name document : Text) : Prop where
  eq : item = name ++ .char '=' :: document
  ne_nil : name ≠ []
  not_mem : .char '=' ∉ name

/-- The value of a document in an item. No document at all stands for the empty text. -/
inductive Means : Text → Value → Prop
  | nothing : Means [] (.text [])
  | document {document : Text} {v : Value} (hne : document ≠ []) (h : Yaml.read document = .ok v) :
    Means document v

/-- An item assigns a value to a name. -/
def Assigns (item name : Text) (v : Value) : Prop :=
  ∃ document, Names item name document ∧ Means document v

/-- What is wrong with an item: it has no equals sign or no name, its document is refused, or its
document holds a content that does not convert. -/
inductive Offends (item : Text) : AssignmentError → Prop
  | malformed (h : .char '=' ∉ item ∨ item.head? = some (.char '=')) : Offends item
    (.malformed item)
  | refused {name document : Text} {e : Yaml.Error} (hitem : Names item name document)
      (hne : document ≠ []) (h : Yaml.read document = .error (.refused e)) :
      Offends item (.refused name document e)
  | unconverted {name document : Text} {e : Yaml.ConversionError} (hitem : Names item name document)
      (hne : document ≠ []) (h : Yaml.read document = .error (.unconverted e)) :
      Offends item (.unconverted e)

variable {item name document : Text} {v : Value} {e : AssignmentError}

/-- The first sign of equality parts an item, if it stands behind a name. -/
lemma splitFirst?_eq_iff_names :
    (Text.splitFirst? (.char '=') item = some (name, document) ∧ name ≠ []) ↔
      Names item name document := by
  rw [Text.splitFirst?_eq_some_iff]
  constructor
  · rintro ⟨⟨heq, hmem⟩, hne⟩
    exact ⟨heq.symm, hne, hmem⟩
  · rintro ⟨heq, hne, hmem⟩
    exact ⟨⟨heq.symm, hmem⟩, hne⟩

/-- The value of an assignment is that of the document behind the sign of equality. -/
lemma Names.assignment_eq (h : Names item name document) :
    assignment item = (assignedValue name document).map fun v => (name, v) := by
  obtain ⟨hsplit, hne⟩ := splitFirst?_eq_iff_names.mpr h
  rw [assignment, hsplit]
  cases name with
  | nil => exact absurd rfl hne
  | cons c name =>
    change (do let v ← assignedValue (c :: name) document; return (c :: name, v)) = _
    cases assignedValue (c :: name) document <;> rfl

/-- An item is taken apart, or it has no equals sign or no name. -/
lemma names_or_malformed (item : Text) :
    (∃ name document, Names item name document) ∨
      ((.char '=' ∉ item ∨ item.head? = some (.char '=')) ∧
        assignment item = .error (.malformed item)) := by
  cases hsplit : Text.splitFirst? (.char '=') item with
  | none =>
    refine .inr ⟨.inl (Text.splitFirst?_eq_none_iff.mp hsplit), ?_⟩
    rw [assignment, hsplit]
  | some parts =>
    obtain ⟨name, document⟩ := parts
    cases name with
    | nil =>
      obtain ⟨heq, -⟩ := Text.splitFirst?_eq_some_iff.mp hsplit
      refine .inr ⟨.inr (by rw [← heq]; rfl), ?_⟩
      rw [assignment, hsplit]
    | cons c name =>
      exact .inl ⟨_, _, splitFirst?_eq_iff_names.mp ⟨hsplit, List.cons_ne_nil c name⟩⟩

/-- The value is what the document means. -/
lemma assignedValue_eq_ok_iff : assignedValue name document = .ok v ↔ Means document v := by
  unfold assignedValue
  cases document with
  | nil =>
    constructor
    · rintro h
      cases h
      exact .nothing
    · rintro (_ | ⟨hne, -⟩)
      · rfl
      · exact absurd rfl hne
  | cons c document =>
    simp only [List.isEmpty_cons, Bool.false_eq_true, if_false, mapError_eq_ok]
    constructor
    · intro h
      exact .document (List.cons_ne_nil c document) h
    · rintro (_ | ⟨-, h⟩)
      exact h

/-- An assignment is read if the item assigns a value to a name. -/
lemma assignment_eq_ok_iff : assignment item = .ok (name, v) ↔ Assigns item name v := by
  constructor
  · intro h
    rcases names_or_malformed item with ⟨n, document, hitem⟩ | ⟨-, hmalformed⟩
    · rw [hitem.assignment_eq] at h
      cases hvalue : assignedValue n document with
      | error e =>
        rw [hvalue] at h
        cases h
      | ok w =>
        rw [hvalue] at h
        cases h
        exact ⟨document, hitem, assignedValue_eq_ok_iff.mp hvalue⟩
    · cases hmalformed.symm.trans h
  · rintro ⟨document, hitem, hvalue⟩
    rw [hitem.assignment_eq, assignedValue_eq_ok_iff.mpr hvalue]
    rfl

lemma Names.unique {name' document' : Text} (h : Names item name document)
    (h' : Names item name' document') :
    name' = name ∧ document' = document := by
  have heq := (splitFirst?_eq_iff_names.mpr h').1.symm.trans (splitFirst?_eq_iff_names.mpr h).1
  simpa using heq

/-- An item that names something is not malformed. -/
lemma Names.mem_and_head?_ne (h : Names item name document) :
    .char '=' ∈ item ∧ item.head? ≠ some (.char '=') := by
  obtain ⟨rfl, hne, hmem⟩ := h
  refine ⟨List.mem_append_right name List.mem_cons_self, ?_⟩
  cases name with
  | nil => exact absurd rfl hne
  | cons c name =>
    rw [List.mem_cons, not_or] at hmem
    simpa using Ne.symm hmem.1

/-- The value fails by what the item offends with. -/
lemma assignedValue_eq_error_iff (hitem : Names item name document) :
    assignedValue name document = .error e ↔ Offends item e := by
  constructor
  · -- A document that is not empty is refused or unconverted as the reader of YAML says.
    intro h
    rw [assignedValue] at h
    split at h
    · cases h
    · next hne =>
      have hne : document ≠ [] := by simpa using hne
      obtain ⟨f, hread, hf⟩ := mapError_eq_error.mp h
      cases f with
      | refused e' =>
        cases hf
        exact .refused hitem hne hread
      | unconverted e' =>
        cases hf
        exact .unconverted hitem hne hread
  · -- An item that names something has a sign of equality and a name in front of it.
    intro h
    cases h with
    | malformed h =>
      obtain ⟨hmem, hhead⟩ := hitem.mem_and_head?_ne
      exact absurd h (not_or.mpr ⟨not_not.mpr hmem, hhead⟩)
    | refused h hne hread | unconverted h hne hread =>
      obtain ⟨rfl, rfl⟩ := hitem.unique h
      simp [assignedValue, hne, hread, Except.mapError]

/-- An assignment fails by what its item offends with. -/
lemma assignment_eq_error_iff : assignment item = .error e ↔ Offends item e := by
  rcases names_or_malformed item with ⟨name, document, hitem⟩ | ⟨hbad, hmalformed⟩
  · rw [hitem.assignment_eq, ← assignedValue_eq_error_iff hitem]
    cases assignedValue name document <;> simp [Except.map]
  · rw [hmalformed]
    constructor
    · intro h
      cases h
      exact .malformed hbad
    · intro h
      cases h with
      | malformed => rfl
      | refused h | unconverted h =>
        obtain ⟨hmem, hhead⟩ := h.mem_and_head?_ne
        exact absurd hbad (not_or.mpr ⟨not_not.mpr hmem, hhead⟩)

end CommandLine

/-! ### Bindings -/

namespace Bindings

/-- Bindings hold what some pairs assign: the names in the order in which they first came, each with
its last value. -/
structure HoldsLast (pairs : List (Text × Value)) (bs : Bindings) : Prop where
  names : bs.map Prod.fst = (pairs.map Prod.fst).eraseDups
  values : ∀ name, bs.value? name = value? name pairs.reverse

variable {bs : Bindings} {pairs : List (Text × Value)}

/-- The first binding of a name counts. -/
lemma value?_cons (p : Text × Value) (bs : Bindings) (name : Text) :
    value? name (p :: bs) = if p.1 = name then some p.2 else bs.value? name := by
  rw [value?, List.find?_cons]
  by_cases h : p.1 = name
  · simp [h]
  · have hne : (p.1 == name) = false := by simpa using h
    rw [hne, if_neg h, value?]

/-- A name that is bound has its new value, and other names have theirs. -/
lemma value?_bind (name : Text) (v : Value) (bs : Bindings) (other : Text) :
    (bs.bind name v).value? other = if name = other then some v else bs.value? other := by
  induction bs with
  | nil => exact value?_cons (name, v) [] other
  | cons p bs ih =>
    rw [Bindings.bind]
    by_cases hname : p.1 = name
    · rw [if_pos hname, value?_cons, value?_cons, hname]
      by_cases hother : name = other <;> simp [hother]
    · rw [if_neg hname, value?_cons, value?_cons, ih]
      by_cases hother : p.1 = other
      · rw [if_pos hother, if_pos hother, if_neg fun h => hname (hother.trans h.symm)]
      · rw [if_neg hother, if_neg hother]

/-- A name that is bound already keeps its place, and another one comes last. -/
lemma names_bind (name : Text) (v : Value) (bs : Bindings) :
    (bs.bind name v).map Prod.fst =
      if name ∈ bs.map Prod.fst then bs.map Prod.fst else bs.map Prod.fst ++ [name] := by
  induction bs with
  | nil => rfl
  | cons p bs ih =>
    rw [Bindings.bind]
    by_cases hname : p.1 = name
    · simp [hname]
    · rw [if_neg hname, List.map_cons, ih]
      by_cases hmem : name ∈ bs.map Prod.fst <;> simp [hmem, Ne.symm hname]

/-- A name that is bound again keeps its place and has another value. -/
lemma HoldsLast.bind (h : bs.HoldsLast pairs) (p : Text × Value) :
    (bs.bind p.1 p.2).HoldsLast (pairs ++ [p]) where
  names := by
    rw [names_bind, h.names, List.map_append, List.eraseDups_append]
    simp only [List.mem_eraseDups]
    by_cases hmem : p.1 ∈ pairs.map Prod.fst
    · have hold : [p.1].removeAll (pairs.map Prod.fst) = [] := by simpa [List.removeAll] using hmem
      rw [if_pos hmem, List.map_singleton, hold, List.eraseDups_nil, List.append_nil]
    · have hnew : [p.1].removeAll (pairs.map Prod.fst) = [p.1] := by
        simpa [List.removeAll] using hmem
      rw [if_neg hmem, List.map_singleton, hnew]
      rfl
  values name := by
    rw [value?_bind, h.values, List.reverse_append, List.reverse_singleton, List.singleton_append,
      value?_cons]

/-- The bindings of pairs that are bound one after another. -/
theorem holdsLast_foldl (pairs : List (Text × Value)) :
    HoldsLast pairs (pairs.foldl (fun bs p => Bindings.bind p.1 p.2 bs) []) := by
  induction pairs using List.reverseRecOn with
  | nil => exact ⟨rfl, fun _ => rfl⟩
  | append_singleton pairs p ih =>
    rw [List.foldl_append]
    exact ih.bind p

end Bindings

namespace CommandLine

/-! ### All items -/

/-- The items are read one by one, and their values are bound in this order. -/
lemma assignments_eq (items : List Text) :
    assignments items
      = (items.mapM assignment).map
        fun pairs => pairs.foldl (fun bs p => Bindings.bind p.1 p.2 bs) [] := by
  unfold assignments
  generalize ([] : Bindings) = bs
  induction items generalizing bs with
  | nil => rfl
  | cons item items ih =>
    rw [List.foldlM_cons, List.mapM_cons]
    cases assignment item with
    | error e => rfl
    | ok p =>
      rw [ok_bind, ok_bind]
      refine (ih (Bindings.bind p.1 p.2 bs)).trans ?_
      cases items.mapM assignment <;> rfl

/-- Assignments fail by what is wrong with the first item that does not assign a value. -/
theorem assignments_eq_error_iff {items : List Text} {e : AssignmentError} :
    assignments items = .error e ↔
      ∃ before item after, items = before ++ item :: after ∧
        (∀ i ∈ before, ∃ name v, Assigns i name v) ∧
        Offends item e := by
  have hmap : assignments items = .error e ↔ items.mapM assignment = .error e := by
    rw [assignments_eq]
    cases items.mapM assignment <;> simp [Except.map]
  rw [hmap, mapM_eq_error_iff]
  simp only [assignment_eq_error_iff, Prod.exists, assignment_eq_ok_iff]

/-- Assignments succeed by the last values of their names. -/
theorem exists_of_assignments_eq_ok {items : List Text} {bs : Bindings}
    (h : assignments items = .ok bs) :
    ∃ pairs : List (Text × Value), List.Forall₂ (fun item p => Assigns item p.1 p.2) items pairs ∧
      bs.HoldsLast pairs := by
  rw [assignments_eq] at h
  cases hpairs : items.mapM assignment with
  | error e =>
    rw [hpairs] at h
    cases h
  | ok pairs =>
    rw [hpairs] at h
    cases h
    refine ⟨pairs, ?_, Bindings.holdsLast_foldl pairs⟩
    exact (forall₂_of_mapM_eq_ok hpairs).imp fun _ _ => assignment_eq_ok_iff.mp

/-! ### The contract -/

/-- A message that shows an item without equals sign or name, or the name of an item whose document
is refused. -/
inductive IsComplaint (item : Text) : Text → Prop
  | malformed (h : .char '=' ∉ item ∨ item.head? = some (.char '=')) :
      IsComplaint item ("Invalid --param '" ++ item ++ "', expected name=value")
  | refused {name document : Text} {e : Yaml.Error} (hitem : Names item name document)
      (hne : document ≠ []) (h : Yaml.read document = .error (.refused e)) :
      IsComplaint item ("Invalid value for --param '" ++ name ++ "': " ++ e.message document)

/-- Items give the last values of their names, or a complaint about the first item that does not
assign a value. -/
def KeepsContract (items : List Text) : Prop :=
  (∃ (pairs : List (Text × Value)) (bs : Bindings), List.Forall₂
    (fun item p => Assigns item p.1 p.2) items pairs ∧ assignments items = .ok bs ∧
    bs.HoldsLast pairs) ∨
  ∃ before item after e, items = before ++ item :: after ∧
    (∀ i ∈ before, ∃ name v, Assigns i name v) ∧ assignments items = .error e ∧
    IsComplaint item e.message

variable {items : List Text}

lemma IsComplaint.exists_offends {item message : Text} (h : IsComplaint item message) :
    ∃ e, Offends item e ∧ ∀ f, e ≠ .unconverted f := by
  cases h with
  | malformed h => exact ⟨_, .malformed h, fun _ h => by cases h⟩
  | refused hitem hne h => exact ⟨_, .refused hitem hne h, fun _ h => by cases h⟩

/-- Only a value that does not convert breaks the contract. -/
lemma keepsContract_iff_ne_unconverted :
    KeepsContract items ↔ ∀ f, assignments items ≠ .error (.unconverted f) := by
  constructor
  · rintro (⟨pairs, bs, -, hok, -⟩ | ⟨before, item, after, e, hitems, hbefore, -, hcomplaint⟩) f hf
    · cases hok.symm.trans hf
    · obtain ⟨e', hoffends, hne⟩ := hcomplaint.exists_offends
      have herror := assignments_eq_error_iff.mpr ⟨before, item, after, hitems, hbefore, hoffends⟩
      exact hne f (Except.error.inj (herror.symm.trans hf))
  · intro h
    cases hresult : assignments items with
    | ok bs =>
      obtain ⟨pairs, hpairs, hlast⟩ := exists_of_assignments_eq_ok hresult
      exact .inl ⟨pairs, bs, hpairs, hresult, hlast⟩
    | error e =>
      obtain ⟨before, item, after, hitems, hbefore, hoffends⟩ := assignments_eq_error_iff.mp hresult
      refine .inr ⟨before, item, after, e, hitems, hbefore, hresult, ?_⟩
      cases hoffends with
      | malformed h => exact .malformed h
      | refused hitem hne h => exact .refused hitem hne h
      | unconverted => exact absurd hresult (h _)

/-- What is told of without a name stands in the document of an item. -/
lemma exists_of_unconverted {f : Yaml.ConversionError}
    (h : assignments items = .error (.unconverted f)) :
    ∃ item ∈ items, ∃ name document, Names item name document ∧
      Yaml.HoldsUnconverted document f := by
  obtain ⟨before, item, after, rfl, -, hoffends⟩ := assignments_eq_error_iff.mp h
  refine ⟨item, List.mem_append_right before List.mem_cons_self, ?_⟩
  cases hoffends with
  | unconverted hitem _ hread => exact ⟨_, _, hitem, Yaml.holdsUnconverted_of_read hread⟩

instance (items : List Text) : Decidable (KeepsContract items) :=
  match h : assignments items with
  | .error (.unconverted f) => .isFalse fun hkeeps => keepsContract_iff_ne_unconverted.mp hkeeps f h
  | .error (.malformed _) | .error (.refused _ _ _) | .ok _ =>
    .isTrue (keepsContract_iff_ne_unconverted.mpr fun f hf => by cases h.symm.trans hf)

end CommandLine

end Schematic
