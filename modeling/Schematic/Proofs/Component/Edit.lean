import Mathlib.Data.List.Nodup
import Mathlib.Logic.Relation
import Schematic.Component.Document
import Schematic.Proofs.Component.Schema

/-!
# What a reader does not see

A record is read field by field, each by its name. So the order of its entries does not matter, nor
do entries of other names, and to leave out a field with a default is to write its default.
Documents that come from each other by such edits, at any depth and in any number, are the same to
the reader: they give one component, or one error with all of its problems.
-/

namespace Schematic

open Schema (Field)

namespace Schema

variable {d : Dialect} {es fs : List (Value × Value)} {fields : List Field}

lemma Field.read_congr {f : Field} (h : Value.get? f.name es = Value.get? f.name fs) :
    f.read d es = f.read d fs := by
  rw [read_eq, read_eq, h]

/-- Fields that are found alike are read alike. -/
lemma readFields_congr (h : ∀ f ∈ fields, f.read d es = f.read d fs) :
    readFields d fields es = readFields d fields fs := by
  induction fields with
  | nil => rfl
  | cons f fields ih =>
    rw [List.forall_mem_cons] at h
    rw [readFields, readFields, h.1, ih h.2]

/-- A record is read by what its fields are bound to. -/
lemma read_record_congr {name : Text} (h : ∀ f ∈ fields, f.read d es = f.read d fs) :
    (record name fields).read d (.map es) = (record name fields).read d (.map fs) :=
  congrArg (Value.map <$> ·) (readFields_congr h)

/-- A record is read alike if its entries differ only in what the key of one field is bound to, and
this field is read alike. -/
lemma read_record_congr_at {name : Text} {f : Field} (hnames : (fields.map Field.name).Nodup)
    (hf : f ∈ fields) (hread : f.read d es = f.read d fs)
    (hother : ∀ t, t ≠ f.name → Value.get? t es = Value.get? t fs) :
    (record name fields).read d (.map es) = (record name fields).read d (.map fs) := by
  apply read_record_congr
  intro g hg
  by_cases hname : g.name = f.name
  · -- fields of one name are one field
    obtain rfl := List.inj_on_of_nodup_map hnames hg hf hname
    exact hread
  · exact Field.read_congr (hother g.name hname)

/-! ### Edits -/

/-- The second value comes from the first one by an edit that a reader by the schema does not
see. -/
inductive Edit : Schema → Value → Value → Prop
  /-- The entries of a record are put into another order. -/
  | permute {name : Text} {fields : List Field} {es fs : List (Value × Value)} :
      (es.map Prod.fst).Nodup → es.Perm fs → Edit (.record name fields) (.map es) (.map fs)
  /-- A record gets an entry whose key is not the name of a field. -/
  | insert {name : Text} {fields : List Field} (es fs : List (Value × Value)) {k : Value}
      (v : Value) :
      (∀ f ∈ fields, k ≠ .text f.name) →
        Edit (.record name fields) (.map (es ++ fs)) (.map (es ++ (k, v) :: fs))
  /-- A field that a record leaves out is written with its default. -/
  | fill {name : Text} {fields : List Field} (es fs : List (Value × Value)) {f : Field}
      {v : Value} :
      f ∈ fields → f.default? = some v → Value.get? f.name (es ++ fs) = none →
        Edit (.record name fields) (.map (es ++ fs)) (.map (es ++ (.text f.name, v) :: fs))
  /-- The value of a field is edited. -/
  | field {name : Text} {fields : List Field} {f : Field} {v w : Value}
      (es fs : List (Value × Value)) :
      f ∈ fields → Edit f.schema v w →
        Edit (.record name fields) (.map (es ++ (.text f.name, v) :: fs))
          (.map (es ++ (.text f.name, w) :: fs))
  /-- An item of a list is edited. -/
  | item {s : Schema} {v w : Value} (us vs : List Value) :
      Edit s v w → Edit (.list s) (.list (us ++ v :: vs)) (.list (us ++ w :: vs))
  /-- An item of a tuple is edited. -/
  | component {s : Schema} {v w : Value} (us vs : List Value) :
      Edit s v w → Edit (.list s) (.tuple (us ++ v :: vs)) (.tuple (us ++ w :: vs))
  /-- What may also be null is edited. -/
  | optional {s : Schema} {v w : Value} : Edit s v w → Edit (.optional s) v w

variable {s : Schema} {v w : Value}

/-- What is edited is not null, nor does it become so. -/
lemma Edit.not_null (h : s.Edit v w) : v.isNull = false ∧ w.isNull = false := by
  induction h with
  | optional _ ih => exact ih
  | _ => exact ⟨rfl, rfl⟩

/-- A list is read item by item. -/
lemma readItems_congr (us vs : List Value) (h : s.read d v = s.read d w) :
    ((us ++ v :: vs).zipIdx.map fun (w, i) => (s.read d w).under (.index i))
      = (us ++ w :: vs).zipIdx.map fun (w, i) => (s.read d w).under (.index i) := by
  simp [List.zipIdx_append, List.zipIdx_cons, h]

/-- Edits are not seen. -/
theorem read_eq_of_edit (hs : s.IsWellFormed) (h : s.Edit v w) : s.read d v = s.read d w := by
  -- By induction on the edit: both values have the same entry for every field that is read.
  induction h with
  | permute hdistinct hperm =>
    apply read_record_congr
    intro f hf
    exact Field.read_congr (Value.get?_perm hdistinct hperm)
  | insert es fs v hk =>
    apply read_record_congr
    intro f hf
    exact Field.read_congr (Value.get?_insert_of_ne (hk f hf)).symm
  | @fill _ _ es fs f v hf hdefault hnone =>
    -- Without an entry the field has its default, and this is what the new entry is read as.
    cases hs with
    | record hnames hdefaults hparts =>
      rw [Value.get?_append, Option.or_eq_none_iff] at hnone
      have hread := hdefaults f hf v hdefault d
      refine read_record_congr_at hnames hf ?_ fun t ht => ?_
      · simp [Field.read_eq, Value.get?_append, hnone, hdefault, Value.get?_cons_self, hread]
      · exact (Value.get?_insert_of_ne fun h => ht (Value.text.inj h).symm).symm
  | @field _ _ f v w es fs hf _ ih =>
    -- The edited entry is read alike, and no other field looks it up.
    cases hs with
    | record hnames hdefaults hparts =>
      refine read_record_congr_at hnames hf ?_ fun t ht => ?_
      · simp only [Field.read_eq, Value.get?_append, Value.get?_cons_self]
        cases Value.get? f.name es with
        | some u => rfl
        | none => simp [ih (hparts f hf)]
      · have hne : Value.text f.name ≠ .text t := fun h => ht (Value.text.inj h).symm
        rw [Value.get?_insert_of_ne hne, Value.get?_insert_of_ne hne]
  | item us vs _ ih =>
    cases hs with
    | list hs => simp only [read, FieldReader.items?, readItems_congr us vs (ih hs)]
  | component us vs _ ih =>
    cases hs with
    | list hs => simp only [read, FieldReader.items?, readItems_congr us vs (ih hs)]
  | optional hedit ih =>
    cases hs with
    | optional hs => simp only [read, hedit.not_null, ih hs]

end Schema

/-! ### Edited components -/

/-- No two results become one when they are wrapped. -/
lemma Checked.map_injective {α β : Type} {f : α → β} (hf : Function.Injective f) :
    Function.Injective (f <$> · : Checked α → Checked β) := by
  intro r s h
  cases r with
  | valid a =>
    cases s with
    | valid b => exact congrArg valid (hf (Checked.valid.inj h))
    | invalid ps => cases h
  | invalid ps =>
    cases s with
    | valid b => cases h
    | invalid qs => exact congrArg invalid (Checked.invalid.inj h)

namespace Component

/-- Components are told apart by what they are written as. -/
lemma toValue_injective : Function.Injective toValue := by
  intro c c' h
  have hread := read_toValue .values c
  rw [h, read_toValue .values c'] at hread
  exact (Checked.valid.inj hread).symm

/-- Two values that a reader does not tell apart have the same components and the same problems. -/
lemma read_eq_of_schema {d : Dialect} {v w : Value} (h : schema.read d v = schema.read d w) :
    read d v = read d w := by
  apply Checked.map_injective toValue_injective
  simpa only [follows d] using h

variable {v w : Value}

lemma ofValue_eq_of_edit (h : schema.Edit v w) : ofValue v = ofValue w := by
  have hread : read .values v = read .values w :=
    read_eq_of_schema (schema.read_eq_of_edit isWellFormed h)
  cases h with
  | permute | insert | fill | field => simp only [ofValue, hread]

/-- Edits of a document that do not change what stands under the names of its fields do not change
its component, nor the problems that it has. -/
theorem ofValue_eq_of_edits (h : Relation.EqvGen schema.Edit v w) : ofValue v = ofValue w := by
  induction h with
  | rel v w h => exact ofValue_eq_of_edit h
  | refl v => rfl
  | symm v w _ ih => exact ih.symm
  | trans u v w _ _ huv hvw => exact huv.trans hvw

/-- A document that names the image of its container first, and tells something that no container
has. -/
def imageFirst : Value := .map [(.text "containers", .list [
  .map [(.text "image", .text "nginx"), (.text "Image", .null), (.text "name", .text "web")]])]

/-- The same with the name first, and with two defaults. -/
def nameFirst : Value := .map [(.text "arch", .text "amd64"), (.text "containers", .list [
  .map [(.text "name", .text "web"), (.text "env", .list []), (.text "image", .text "nginx")]])]

/-- Four edits lead from one of the documents to the other. -/
theorem ofValue_imageFirst : Relation.EqvGen schema.Edit imageFirst nameFirst ∧
    ofValue imageFirst = ofValue nameFirst ∧ (ofValue nameFirst).toBool = true := by
  have harch : Field.defaulted "arch" (.text "amd64") .text ∈ schema.fields := by
    simp [schema, Schema.fields]
  have hcontainers : Field.listed "containers" Container.schema ∈ schema.fields := by
    simp [schema, Schema.fields]
  have henv : Field.listed "env" Env.schema ∈ Container.schema.fields := by
    simp [Container.schema, Schema.fields]
  have hunknown : ∀ f ∈ Container.schema.fields, Value.text "Image" ≠ .text f.name := by
    intro f hf heq
    have hnot : ("Image" : Text) ∉ Container.schema.fields.map Field.name := by decide
    exact hnot (List.mem_map.mpr ⟨f, hf, (Value.text.inj heq).symm⟩)
  have hnames : ("image" : Text) ≠ "name" := by decide
  have hinside {v w : Value} (h : Container.schema.Edit v w) :
      schema.Edit (.map [(.text "arch", .text "amd64"), (.text "containers", .list [v])])
        (.map [(.text "arch", .text "amd64"), (.text "containers", .list [w])]) :=
    .field [_] [] hcontainers (.item [] [] h)
  have hedits : Relation.EqvGen schema.Edit imageFirst nameFirst := by
    -- The architecture is filled in, the unknown entry is removed, the entries of the container
    -- change places, and its variables are filled in.
    apply Relation.EqvGen.trans
    · apply Relation.EqvGen.rel
      exact .fill [] _ harch rfl (by simp [Value.get?, Text.ofString_beq, Field.defaulted])
    apply Relation.EqvGen.trans
    · apply Relation.EqvGen.symm
      apply Relation.EqvGen.rel
      apply hinside
      exact .insert [_] [_] .null hunknown
    apply Relation.EqvGen.trans
    · apply Relation.EqvGen.rel
      apply hinside
      exact .permute (by simp [hnames]) (.swap _ _ [])
    · apply Relation.EqvGen.rel
      apply hinside
      exact .fill [_] [_] henv rfl
        (by simp [Value.get?, Text.ofString_beq, Field.listed, Field.defaulted])
  exact ⟨hedits, ofValue_eq_of_edits hedits, by decide +kernel⟩

end Component

end Schematic
