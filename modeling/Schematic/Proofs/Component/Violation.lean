import Schematic.Proofs.Component.Leaf
import Schematic.Proofs.Component.Problem

/-!
# Where a schema is violated

A schema is violated at a place of a document where a field is missing that has to be there, or
where a value is of another kind than the schema says. What a reader tells about a document is one
problem for each place at which the schema is violated, in the order of the fields and of the items,
and a part before its neighbours. No problem hides another one, and without a violation there is a
component.
-/

namespace Schematic

open Schema (Field Leaf)

namespace Schema

variable (d : Dialect) (v : Value)

/-! ### Violations -/

/-- The schema is violated at a place of a value, by some cause. -/
inductive Violated (d : Dialect) : Schema → Value → List PathStep → Cause → Prop
  /-- A value is of another kind. -/
  | leaf {l : Leaf} {v : Value} : ¬ l.Admits v → Violated d (.leaf l) v [] (l.complaint v)
  /-- What may also be null is neither null nor what it should be. -/
  | optional {s : Schema} {v : Value} {path : List PathStep} {c : Cause} :
      v.isNull = false → Violated d s v path c → Violated d (.optional s) v path c
  /-- A value is no list. -/
  | notList {s : Schema} {v : Value} : FieldReader.items? v = none →
    Violated d (.list s) v [] (.notList d)
  /-- An item of a list is not what it should be. -/
  | item {s : Schema} {v w : Value} {vs : List Value} {i : Nat} {path : List PathStep} {c : Cause} :
      FieldReader.items? v = some vs → vs[i]? = some w → Violated d s w path c →
      Violated d (.list s) v (.index i :: path) c
  /-- A value is no record. -/
  | notRecord {name : Text} {fields : List Field} {v : Value} :
      (∀ es, v ≠ .map es) → Violated d (.record name fields) v [] (.notRecord d name)
  /-- A field is missing that has to be there. -/
  | missing {name : Text} {fields : List Field} {es : List (Value × Value)} {f : Field} :
      f ∈ fields → f.default? = none → Value.get? f.name es = none →
      Violated d (.record name fields) (.map es) [.name f.name] .missing
  /-- The value of a field is not what it should be. -/
  | field {name : Text} {fields : List Field} {es : List (Value × Value)} {f : Field} {w : Value}
      {path : List PathStep} {c : Cause} :
      f ∈ fields → Value.get? f.name es = some w → Violated d f.schema w path c →
      Violated d (.record name fields) (.map es) (.name f.name :: path) c

section

variable {d} {v} {path : List PathStep} {c : Cause}

/-- A leaf is violated by what it does not admit, and by nothing else. -/
lemma violated_leaf_iff {l : Leaf} :
    (leaf l).Violated d v path c ↔ ¬ l.Admits v ∧ path = [] ∧ c = l.complaint v := by
  constructor
  · rintro ⟨hv⟩
    exact ⟨hv, rfl, rfl⟩
  · rintro ⟨hv, rfl, rfl⟩
    exact .leaf hv

/-- What may be missing is violated by what is there and violates it. -/
lemma violated_optional_iff {s : Schema} :
    s.optional.Violated d v path c ↔ v.isNull = false ∧ s.Violated d v path c := by
  constructor
  · intro h
    cases h with
    | optional hv h => exact ⟨hv, h⟩
  · rintro ⟨hv, h⟩
    exact .optional hv h

/-- What is no list violates a list as a whole. -/
lemma violated_list_iff_of_none {s : Schema} (hv : FieldReader.items? v = none) :
    s.list.Violated d v path c ↔ path = [] ∧ c = .notList d := by
  constructor
  · intro h
    cases h with
    | notList => exact ⟨rfl, rfl⟩
    | item hsome => cases hv.symm.trans hsome
  · rintro ⟨rfl, rfl⟩
    exact .notList hv

/-- A list is violated within one of its items. -/
lemma violated_list_iff {s : Schema} {vs : List Value} (hv : FieldReader.items? v = some vs) :
    s.list.Violated d v path c ↔
      ∃ w, ∃ i : Nat, vs[i]? = some w ∧
        ∃ rest, path = .index i :: rest ∧ s.Violated d w rest c := by
  constructor
  · intro h
    cases h with
    | notList hnone => cases hv.symm.trans hnone
    | item hsome hw h =>
      obtain rfl := Option.some.inj (hv.symm.trans hsome)
      exact ⟨_, _, hw, _, rfl, h⟩
  · rintro ⟨w, i, hw, rest, rfl, h⟩
    exact .item hv hw h

/-- What is no record violates a record as a whole. -/
lemma violated_record_iff_of_ne {name : Text} {fields : List Field} (hv : ∀ es, v ≠ .map es) :
    (record name fields).Violated d v path c ↔ path = [] ∧ c = .notRecord d name := by
  constructor
  · intro h
    cases h with
    | notRecord => exact ⟨rfl, rfl⟩
    | missing => exact absurd rfl (hv _)
    | field => exact absurd rfl (hv _)
  · rintro ⟨rfl, rfl⟩
    exact .notRecord hv

/-- A record is violated within one of its fields, or by the lack of one. -/
lemma violated_record_iff {name : Text} {fields : List Field} {es : List (Value × Value)} :
    (record name fields).Violated d (.map es) path c ↔ ∃ f ∈ fields,
      (∃ w rest, Value.get? f.name es = some w ∧ path = .name f.name :: rest ∧
        f.schema.Violated d w rest c) ∨
      (Value.get? f.name es = none ∧ f.default? = none ∧ path = [.name f.name] ∧ c = .missing) := by
  constructor
  · intro h
    cases h with
    | notRecord hne => exact absurd rfl (hne es)
    | missing hf hdefault hnone => exact ⟨_, hf, .inr ⟨hnone, hdefault, rfl, rfl⟩⟩
    | field hf hw h => exact ⟨_, hf, .inl ⟨_, _, hw, rfl, h⟩⟩
  · rintro ⟨f, hf, ⟨w, rest, hw, rfl, h⟩ | ⟨hnone, hdefault, rfl, rfl⟩⟩
    · exact .field hf hw h
    · exact .missing hf hdefault hnone

end

/-! ### Problems -/

/-- What a reader tells about a value. -/
def problems (s : Schema) : List Problem := (s.read d v).problems

variable (es : List (Value × Value))

/-- What a reader tells about a field. -/
def Field.problems (f : Field) : List Problem :=
  match Value.get? f.name es with
  | some w => (f.schema.problems d w).map (·.under (.name f.name))
  | none => if f.default?.isNone then [⟨[.name f.name], .missing⟩] else []

lemma Field.problems_read (f : Field) : (f.read d es).problems = f.problems d es := by
  rw [read_eq, Field.problems]
  cases Value.get? f.name es with
  | some w => exact Checked.problems_under _ _
  | none => cases f.default? <;> rfl

/-- The problems of fields are those of each of them, in their order. -/
lemma problems_readFields (fields : List Field) :
    (readFields d fields es).problems = fields.flatMap (Field.problems d es) := by
  induction fields with
  | nil => rfl
  | cons f fields ih =>
    rw [readFields, Checked.problems_seq, Checked.problems_map, Field.problems_read, ih,
      List.flatMap_cons]

/-- The problems of a record are those of its fields, one field after another. -/
theorem problems_record (name : Text) (fields : List Field) :
    (record name fields).problems d (.map es) = fields.flatMap (Field.problems d es) := by
  rw [problems, read, Checked.problems_map, problems_readFields]

/-- The problems of a list are those of its items, one item after another. -/
theorem problems_list (s : Schema) {vs : List Value} (hv : FieldReader.items? v = some vs) :
    s.list.problems d v
      = vs.zipIdx.flatMap fun (w, i) => (s.problems d w).map (·.under (.index i)) := by
  simp only [problems, read, hv, Checked.problems_map, Checked.problems_list, List.flatMap_map,
    Checked.problems_under]

/-- What may also be null has the problems of what it should be, unless it is null. -/
lemma problems_optional (s : Schema) :
    s.optional.problems d v = if v.isNull then [] else s.problems d v := by
  rw [problems, read]
  split
  · rfl
  · rfl

lemma problems_notRecord (name : Text) (fields : List Field) (hv : ∀ es, v ≠ .map es) :
    (Schema.record name fields).problems d v = [⟨[], .notRecord d name⟩] := by
  cases v with
  | map es => exact absurd rfl (hv es)
  | _ => rfl

/-- A problem under a step has the step in front of its path. -/
lemma mem_map_under_iff {path : List PathStep} {c : Cause} {step : PathStep} {ps : List Problem} :
    ⟨path, c⟩ ∈ ps.map (·.under step) ↔ ∃ rest, path = step :: rest ∧ ⟨rest, c⟩ ∈ ps := by
  simp only [List.mem_map, Problem.under, Problem.mk.injEq]
  constructor
  · rintro ⟨p, hp, rfl, rfl⟩
    exact ⟨p.path, rfl, hp⟩
  · rintro ⟨rest, rfl, hmem⟩
    exact ⟨⟨rest, c⟩, hmem, rfl, rfl⟩

/-- A field has the problems of its entry, or the one of its lack. -/
lemma Field.mem_problems_iff {f : Field} {path : List PathStep} {c : Cause} :
    ⟨path, c⟩ ∈ f.problems d es ↔
      (∃ w rest, Value.get? f.name es = some w ∧ path = .name f.name :: rest ∧
        ⟨rest, c⟩ ∈ f.schema.problems d w) ∨
      (Value.get? f.name es = none ∧ f.default? = none ∧ path = [.name f.name] ∧ c = .missing) := by
  rw [Field.problems]
  cases Value.get? f.name es with
  | some w => simp [mem_map_under_iff]
  | none => cases f.default? <;> simp

/-- The problems of a field are below its name. -/
lemma Field.exists_path_of_mem_problems {f : Field} {p : Problem} (hp : p ∈ f.problems d es) :
    ∃ rest, p.path = .name f.name :: rest := by
  rcases (mem_problems_iff d es).mp hp with ⟨w, rest, -, hpath, -⟩ | ⟨-, -, hpath, -⟩
  · exact ⟨rest, hpath⟩
  · exact ⟨[], hpath⟩

/-- What a reader tells is where the schema is violated, and by what. -/
theorem mem_problems_iff {s : Schema} (hs : s.IsWellFormed) {v : Value} {path : List PathStep}
    {c : Cause} :
    ⟨path, c⟩ ∈ s.problems d v ↔ s.Violated d v path c := by
  induction hs generalizing v path with
  | any =>
    constructor
    · intro h
      cases h
    · intro h
      cases h
  | @leaf l hl =>
    -- A leaf decides: it is read, or violated at its own place.
    rw [violated_leaf_iff]
    rcases l.decides_read d v hl with ⟨hv, w, hread⟩ | ⟨hv, hread⟩
    · simp [problems, read, hread, hv]
    · simp [problems, read, hread, hv]
  | @optional s _ ih =>
    rw [problems_optional, violated_optional_iff]
    cases v.isNull with
    | true => simp
    | false => simp [ih]
  | @list s _ ih =>
    cases hv : FieldReader.items? v with
    | none =>
      rw [violated_list_iff_of_none hv]
      simp [problems, read, hv]
    | some vs =>
      rw [violated_list_iff hv]
      simp only [problems_list d v s hv, List.mem_flatMap, Prod.exists,
        List.mem_zipIdx_iff_getElem?, mem_map_under_iff, ih]
  | @record name fields _ _ _ ih =>
    by_cases hv : ∃ es, v = .map es
    · -- The problems of a record are those of its fields, one field after another.
      obtain ⟨es, rfl⟩ := hv
      rw [problems_record, violated_record_iff, List.mem_flatMap]
      refine exists_congr fun f => and_congr_right fun hf => ?_
      simp only [Field.mem_problems_iff, ih f hf]
    · -- What is no record has one problem, whatever the fields are.
      rw [not_exists] at hv
      rw [problems_notRecord d v name fields hv, violated_record_iff_of_ne hv, List.mem_singleton,
        Problem.mk.injEq]

/-- A field is read properly if its value is. -/
lemma Field.isProper_read (f : Field) (h : ∀ w, (f.schema.read d w).IsProper) :
    (f.read d es).IsProper := by
  rw [read_eq]
  split
  · exact (h _).under (.name f.name)
  · exact Checked.isProper_valid _
  · intro hnone
    cases hnone

/-- Fields are read properly if each of them is. -/
lemma isProper_readFields {fields : List Field} (h : ∀ f ∈ fields, (f.read d es).IsProper) :
    (readFields d fields es).IsProper := by
  induction fields with
  | nil => exact Checked.isProper_valid []
  | cons f fields ih =>
    rw [List.forall_mem_cons] at h
    exact (h.1.map _).seq (ih h.2)

/-- A value without problems is read. -/
lemma isProper_read {s : Schema} (hs : s.IsWellFormed) {v : Value} : (s.read d v).IsProper := by
  induction hs generalizing v with
  | any => exact Checked.isProper_valid v
  | @leaf l hl =>
    rcases l.decides_read d v hl with ⟨-, w, hread⟩ | ⟨-, hread⟩
    · exact fun _ => ⟨w, hread⟩
    · rw [read, hread]
      exact Checked.isProper_fail _
  | optional _ ih =>
    rw [read]
    split
    · exact Checked.isProper_valid _
    · exact ih
  | list _ ih =>
    rw [read]
    split
    · -- A list is proper if all of its items are.
      refine (Checked.isProper_list ?_).map Value.list
      intro r hr
      obtain ⟨⟨w, i⟩, -, rfl⟩ := List.mem_map.mp hr
      exact ih.under (.index i)
    · exact Checked.isProper_fail _
  | record _ _ _ ih =>
    cases v with
    | map es =>
      apply Checked.IsProper.map
      apply isProper_readFields
      intro f hf
      exact f.isProper_read d es fun _ => ih f hf
    | _ => exact Checked.isProper_fail _

/-! ### The order of reports -/

/-- The first path comes before the second one: at the first step in which they differ it has the
earlier field or item. -/
inductive Before : Schema → List PathStep → List PathStep → Prop
  | optional {s : Schema} {path path' : List PathStep} : Before s path path' →
    Before (.optional s) path path'
  | items {s : Schema} {path path' : List PathStep} {i j : Nat} :
      i < j → Before (.list s) (.index i :: path) (.index j :: path')
  | item {s : Schema} {path path' : List PathStep} {i : Nat} :
      Before s path path' → Before (.list s) (.index i :: path) (.index i :: path')
  | fields {name : Text} {fields : List Field} {f g : Field} {path path' : List PathStep} :
      [f, g].Sublist fields →
        Before (.record name fields) (.name f.name :: path) (.name g.name :: path')
  | field {name : Text} {fields : List Field} {f : Field} {path path' : List PathStep} :
      f ∈ fields → Before f.schema path path' →
      Before (.record name fields) (.name f.name :: path) (.name f.name :: path')

/-- No path comes before itself. -/
lemma Before.ne {s : Schema} (hs : s.IsWellFormed) {path path' : List PathStep}
    (h : s.Before path path') :
    path ≠ path' := by
  induction h with
  | optional _ ih =>
    cases hs with
    | optional hs => exact ih hs
  | items hlt =>
    intro heq
    simp only [List.cons.injEq, PathStep.index.injEq, Int.natCast_inj] at heq
    exact hlt.ne heq.1
  | item _ ih =>
    cases hs with
    | list hs => exact fun heq => ih hs (List.cons.inj heq).2
  | fields hsub =>
    cases hs with
    | record hnames _ _ =>
      intro heq
      have hpair := (List.pairwise_map.mp hnames).sublist hsub
      exact (List.pairwise_cons.mp hpair).1 _ List.mem_cons_self
        (PathStep.name.inj (List.cons.inj heq).1)
  | field hf _ ih =>
    cases hs with
    | record _ _ hparts => exact fun heq => ih (hparts _ hf) (List.cons.inj heq).2

/-- The items of a list, in the order of the list. -/
lemma pairwise_problems_list {s : Schema} {vs : List Value} (hv : FieldReader.items? v = some vs)
    (hs : ∀ w, (s.problems d w).Pairwise fun p q => s.Before p.path q.path) :
    (s.list.problems d v).Pairwise fun p q => s.list.Before p.path q.path := by
  rw [problems_list d v s hv, List.pairwise_flatMap]
  constructor
  · rintro ⟨w, i⟩ -
    exact List.pairwise_map.mpr ((hs w).imp .item)
  · have hindex : vs.zipIdx.Pairwise fun a b => a.2 < b.2 := by
      rw [← List.pairwise_map (f := Prod.snd) (R := (· < ·)), List.zipIdx_map_snd]
      exact List.pairwise_lt_range'
    refine hindex.imp fun hlt p hp q hq => ?_
    obtain ⟨p, -, rfl⟩ := List.mem_map.mp hp
    obtain ⟨q, -, rfl⟩ := List.mem_map.mp hq
    exact .items hlt

/-- The fields of a record, in the order in which the record has them. -/
lemma pairwise_problems_record {name : Text} {fields : List Field}
    (hfields : ∀ f ∈ fields, ∀ w, (f.schema.problems d w).Pairwise
      fun p q => f.schema.Before p.path q.path) :
    ((record name fields).problems d (.map es)).Pairwise fun p q =>
      (record name fields).Before p.path q.path := by
  rw [problems_record, List.pairwise_flatMap]
  constructor
  · intro f hf
    rw [Field.problems]
    split
    · exact List.pairwise_map.mpr ((hfields f hf _).imp (.field hf))
    · split
      · exact List.pairwise_singleton _ _
      · exact List.Pairwise.nil
  · rw [List.pairwise_iff_forall_sublist]
    intro f g hsub p hp q hq
    obtain ⟨path, hpath⟩ := f.exists_path_of_mem_problems d es hp
    obtain ⟨path', hpath'⟩ := g.exists_path_of_mem_problems d es hq
    rw [hpath, hpath']
    exact .fields hsub

/-- Problems are told in the order of their places. -/
theorem pairwise_problems {s : Schema} (hs : s.IsWellFormed) {v : Value} :
    (s.problems d v).Pairwise fun p q => s.Before p.path q.path := by
  induction hs generalizing v with
  | any => exact List.Pairwise.nil
  | @leaf l hl =>
    rcases l.decides_read d v hl with ⟨-, w, hread⟩ | ⟨-, hread⟩
    · simp [problems, read, hread]
    · simp [problems, read, hread]
  | optional _ ih =>
    rw [problems_optional]
    split
    · exact List.Pairwise.nil
    · exact ih.imp .optional
  | list _ ih =>
    cases hv : FieldReader.items? v with
    | none => simp [problems, read, hv]
    | some vs => exact pairwise_problems_list d v hv fun _ => ih
  | record _ _ _ ih =>
    cases v with
    | map es => exact pairwise_problems_record d es fun f hf _ => ih f hf
    | _ => exact List.pairwise_singleton _ _

/-- A report on a value: exactly one problem for each place at which the schema is violated, in the
order of the places. -/
structure IsReport (s : Schema) (ps : List Problem) : Prop where
  mem_iff : ∀ path c, ⟨path, c⟩ ∈ ps ↔ s.Violated d v path c
  ordered : ps.Pairwise fun p q => s.Before p.path q.path
  nodup : (ps.map Problem.path).Nodup

/-- What a reader tells about a value is a report. -/
theorem isReport_problems {s : Schema} (hs : s.IsWellFormed) : s.IsReport d v (s.problems d v) where
  mem_iff _ _ := mem_problems_iff d hs
  ordered := pairwise_problems d hs
  nodup := List.pairwise_map.mpr ((pairwise_problems d hs).imp fun h => h.ne hs)

/-- A value gives something by a schema exactly if the schema is not violated. -/
theorem exists_read_eq_valid_iff {s : Schema} (hs : s.IsWellFormed) :
    (∃ w, s.read d v = .valid w) ↔ ∀ path c, ¬ s.Violated d v path c := by
  constructor
  · rintro ⟨w, hw⟩ path c h
    have hmem := (mem_problems_iff d hs).mpr h
    rw [problems, hw] at hmem
    cases hmem
  · intro h
    apply isProper_read d hs
    apply List.eq_nil_iff_forall_not_mem.mpr
    rintro ⟨path, c⟩ hmem
    exact h path c ((mem_problems_iff d hs).mp hmem)

end Schema

end Schematic
