import Schematic.Proofs.Component.Binding
import Schematic.Proofs.Component.Seen

/-!
# Normalisation

The plain form of a component is a document of a component again: of the one whose defaults are in
normal form. It is written as it was read, and is the same component exactly if the defaults were
plain data with finite numbers before.
-/

namespace Schematic

open Value (ofOption ofList ofInt32 record)
open Json (IsNormal IsFinite settledItems settledEntries toValues toEntries)

/-! ### Normal forms of collections -/

/-- The normal form is kept by the words and the numbers of a component. -/
lemma Json.isCommon_isNormal : IsCommon IsNormal where
  null := ⟨trivial, trivial, trivial⟩
  bool _ := ⟨trivial, trivial, trivial⟩
  int32 _ := ⟨trivial, trivial, trivial⟩
  text _ := ⟨trivial, trivial, trivial⟩
  array _ := ⟨trivial, trivial, trivial⟩
  object es h := ⟨h.1, isCommon_hasUnicodeNames.object es h, trivial⟩

namespace Value

variable {α : Type} {write : α → Value}

/-- The value has a plain form. -/
def HasPlain (v : Value) : Prop := ∃ j, v.plain = .ok j

/-- Normal data is its own normal form. -/
lemma normal_of_isPlain {v : Value} (h : v.IsPlain IsNormal) : v.normal = v := by
  obtain ⟨j, rfl, hj⟩ := h
  have hnames : j.Every Json.HasUnicodeNames := Json.Every.imp (fun _ h => h.hasUnicodeNames) j hj
  have hfinite : j.Every IsFinite := Json.Every.imp (fun _ h => h.isFinite) j hj
  have hdistinct : j.Every Json.HasDistinctNames :=
    Json.Every.imp (fun _ h => h.hasDistinctNames) j hj
  have hplain : j.toValue.plain = .ok j := by
    rw [Json.plain_toValue j hnames, Json.finite_eq_self j hfinite]
  rw [normal_eq hplain, Json.settled_eq_self j hdistinct]

/-- The plain forms of the items are those of their normal forms. -/
lemma toValues_settledItems {vs : List Value} {js : List Json} (h : plainList vs = .ok js) :
    toValues (settledItems js) = vs.map normal := by
  induction vs generalizing js with
  | nil =>
    cases h
    rfl
  | cons v vs ih =>
    obtain ⟨j, js, hj, hjs, rfl⟩ := exists_of_plainList_cons h
    rw [settledItems, toValues, ih hjs, List.map_cons, normal_eq hj]

/-- The items of a list have plain forms, if the list has. -/
lemma hasPlain_of_plainList {vs : List Value} {js : List Json} (h : plainList vs = .ok js) :
    ∀ v ∈ vs, v.HasPlain := by
  induction vs generalizing js with
  | nil => exact List.forall_mem_nil _
  | cons v vs ih =>
    obtain ⟨j, js, hj, hjs, -⟩ := exists_of_plainList_cons h
    exact List.forall_mem_cons.mpr ⟨⟨j, hj⟩, ih hjs⟩

/-- Lists of parts are one if the parts are written alike. -/
lemma ofList_eq_map {write' : α → Value} {f : α → α} {as : List α}
    (h : ∀ a ∈ as, write' a = write (f a)) :
    ofList write' as = ofList write (as.map f) := by
  rw [ofList, ofList, List.map_map]
  exact congrArg Value.list (List.map_congr_left h)

/-- A list of parts that has a plain form has the parts in normal form. -/
lemma normal_ofList {as : List α} (h : (ofList write as).HasPlain) :
    (ofList write as).normal = ofList (fun a => (write a).normal) as ∧
      ∀ a ∈ as, (write a).HasPlain := by
  obtain ⟨j, hj⟩ := h
  have hplain := hj
  obtain ⟨js, hjs, rfl⟩ := exists_of_plain_list hj
  constructor
  · rw [normal_eq hplain, Json.settled, Json.toValue, toValues_settledItems hjs, List.map_map]
    rfl
  · exact List.forall_mem_map.mp (hasPlain_of_plainList hjs)

/-- The entries of a record under the names of its fields. -/
lemma plainEntries_record {fields : List (Text × Value)} {ps : List (Text × Json)}
    (h : plainEntries (fields.map fun (k, v) => (text k, v)) = .ok ps) :
    toEntries (settledEntries ps) = (fields.map fun f => (text f.1, f.2.normal)) ∧
      (settledEntries ps).map Prod.fst = fields.map Prod.fst ∧ ∀ f ∈ fields, f.2.HasPlain := by
  induction fields generalizing ps with
  | nil =>
    cases h
    exact ⟨rfl, rfl, List.forall_mem_nil _⟩
  | cons f fields ih =>
    obtain ⟨name, v⟩ := f
    obtain ⟨name', j, rest, hname, hj, hrest, rfl⟩ := exists_of_plainEntries_cons h
    obtain ⟨-, rfl⟩ := plainKey_text_eq_ok_iff.mp hname
    obtain ⟨hentries, hnames, hplain⟩ := ih hrest
    refine ⟨?_, ?_, List.forall_mem_cons.mpr ⟨⟨j, hj⟩, hplain⟩⟩
    · rw [settledEntries, toEntries, hentries, List.map_cons, normal_eq hj]
    · rw [settledEntries, List.map_cons, hnames, List.map_cons]

/-- A record that has a plain form has its fields in normal form. -/
lemma normal_record {fields : List (Text × Value)} (hnames : (fields.map Prod.fst).Nodup)
    (h : (record fields).HasPlain) :
    (record fields).normal = record (fields.map fun f => (f.1, f.2.normal)) ∧
      ∀ f ∈ fields, f.2.HasPlain := by
  obtain ⟨j, hj⟩ := h
  have hplain := hj
  obtain ⟨ps, hps, rfl⟩ := exists_of_plain_map hj
  obtain ⟨hentries, hsame, hparts⟩ := plainEntries_record hps
  refine ⟨?_, hparts⟩
  rw [normal_eq hplain, Json.settled, Json.bindAll_eq_self (hsame ▸ hnames), Json.toValue, hentries,
    record, List.map_map]
  rfl

end Value

/-! ### Normal forms of components -/

open Value (normal HasPlain)

lemma normal_text (t : Text) : normal (.text t) = .text t := rfl

lemma normal_ofOption_text (o : Option Text) : normal (ofOption .text o) = ofOption .text o := by
  cases o <;> rfl

/-- A parameter that is written in normal form has its default in normal form. -/
lemma Parameter.normal_toValue {p : Parameter} (h : p.toValue.HasPlain) :
    p.toValue.normal = { p with default := p.default.normal }.toValue ∧ p.default.HasPlain := by
  obtain ⟨hnormal, hparts⟩ := Value.normal_record (by simp only [List.map]; decide) h
  refine ⟨?_, hparts ("default", p.default) (by simp)⟩
  rw [toValue, hnormal]
  simp only [List.map_cons, List.map_nil, normal_text, normal_ofOption_text]
  rfl

/-- A setting that is written in normal form has its default in normal form. -/
lemma WorkloadSetting.normal_toValue {s : WorkloadSetting} (h : s.toValue.HasPlain) :
    s.toValue.normal = { s with default := s.default.normal }.toValue ∧ s.default.HasPlain := by
  obtain ⟨hnormal, hparts⟩ := Value.normal_record (by simp only [List.map]; decide) h
  refine ⟨?_, hparts ("default", s.default) (by simp)⟩
  rw [toValue, hnormal]
  simp only [List.map_cons, List.map_nil, normal_text, normal_ofOption_text]
  rfl

/-- What the fields of a component are written as. -/
lemma plainFields_cases {fields : List (Text × Value)} {es : List (Text × Json)}
    (h : plainFields fields = .ok es) :
    toEntries es = (fields.map fun f => (.text f.1, f.2.normal)) ∧ Json.EveryEntry IsNormal es ∧
      ∀ f ∈ fields, f.2.HasPlain := by
  induction fields generalizing es with
  | nil =>
    cases h
    exact ⟨rfl, trivial, List.forall_mem_nil _⟩
  | cons f fields ih =>
    obtain ⟨name, v⟩ := f
    rw [plainFields] at h
    obtain ⟨j, hj, h⟩ := exists_of_bind_eq_ok h
    obtain ⟨rest, hrest, h⟩ := exists_of_bind_eq_ok h
    cases h
    obtain ⟨hentries, hnormal, hparts⟩ := ih hrest
    refine ⟨?_, ⟨Value.every_isNormal v hj, hnormal⟩, List.forall_mem_cons.mpr ⟨⟨j, hj⟩, hparts⟩⟩
    rw [toEntries, hentries, List.map_cons, Value.normal_eq hj]

namespace Component

variable {c : Component} {es : List (Text × Json)}

/-- A component that has a plain form is written as the component with its defaults in normal
form. -/
lemma toValue_of_plain (h : c.plain = .ok es) :
    (Json.object es).toValue = (c.mapDefaults normal).toValue ∧ c.EveryDefault HasPlain := by
  obtain ⟨hentries, -, hparts⟩ := plainFields_cases h
  have hparameters := Value.normal_ofList
    (hparts ("parameters", ofList Parameter.toValue c.parameters) (by simp [fields]))
  have hsettings :=
    Value.normal_ofList (hparts
      ("workloadSettings", ofList WorkloadSetting.toValue c.workloadSettings) (by simp [fields]))
  have hcontainers : (ofList Container.toValue c.containers).normal
      = ofList Container.toValue c.containers := by
    apply Value.normal_of_isPlain
    rw [Value.isPlain_ofList_iff Json.isCommon_isNormal.toIsStructural]
    exact fun k _ => k.isPlain_toValue Json.isCommon_isNormal
  constructor
  · -- Field by field the plain forms are those of the defaults; the containers hold none.
    rw [Json.toValue, hentries, toValue, record, fields, fields]
    simp only [List.map_cons, List.map_nil, normal_text, hparameters.1, hsettings.1, hcontainers]
    have hps : ofList (fun p => p.toValue.normal) c.parameters
        = ofList Parameter.toValue (c.mapDefaults normal).parameters :=
      Value.ofList_eq_map fun p hp => (Parameter.normal_toValue (hparameters.2 p hp)).1
    have hss : ofList (fun s => s.toValue.normal) c.workloadSettings
        = ofList WorkloadSetting.toValue (c.mapDefaults normal).workloadSettings :=
      Value.ofList_eq_map fun s hs => (WorkloadSetting.normal_toValue (hsettings.2 s hs)).1
    rw [hps, hss]
    rfl
  · exact ⟨fun p hp => (Parameter.normal_toValue (hparameters.2 p hp)).2,
      fun s hs => (WorkloadSetting.normal_toValue (hsettings.2 s hs)).2⟩

/-- What a component is written as is normal data. -/
lemma every_isNormal_of_plain (h : c.plain = .ok es) : (Json.object es).Every IsNormal := by
  obtain ⟨hentries, hnormal, -⟩ := plainFields_cases h
  have hnames : es.map Prod.fst = c.fields.map Prod.fst := by
    have hsame : (c.fields.map fun f => (f.1, f.2.normal)).map Prod.fst
        = c.fields.map Prod.fst := by
      rw [List.map_map]
      rfl
    rw [← hsame]
    apply Value.names_of_toEntries
    rw [hentries, List.map_map]
    rfl
  exact ⟨Json.isCommon_isNormal.object es (hnames ▸ c.areFieldNames_fields), hnormal⟩

/-- The plain form of a component gives the component with its defaults in normal form, and is the
plain form of that too. -/
lemma ofValue_of_plain (h : c.plain = .ok es) :
    ofValue (Json.object es).toValue = .ok (c.mapDefaults normal) ∧
      (c.mapDefaults normal).plain = .ok es := by
  have hvalue := (toValue_of_plain h).1
  have hnormal := every_isNormal_of_plain h
  constructor
  · rw [hvalue]
    exact ofValue_toValue _
  · rw [plain_eq_finite hvalue.symm (Json.Every.imp (fun _ h => h.hasDistinctNames) _ hnormal)
      (Json.Every.imp (fun _ h => h.hasUnicodeNames) _ hnormal)]
    rw [Json.finiteEntries_eq_self es (Json.Every.imp (fun _ h => h.isFinite) _ hnormal).2]

/-- A component that was read from a document and has a plain form is read from this form, with its
defaults in normal form. The component that is read has the same plain form, and is the same as the
first one exactly if the defaults of this were plain data with finite numbers. -/
theorem plain_idempotent (hread : c.IsRead) (h : c.plain = .ok es) :
    ∃ c₂, ofValue (Json.object es).toValue = .ok c₂ ∧ c₂.plain = .ok es ∧
      (c₂.same c = true ↔ c.EveryDefault (·.IsPlain IsFinite)) := by
  obtain ⟨hvalue, hplain⟩ := ofValue_of_plain h
  refine ⟨c.mapDefaults normal, hvalue, hplain, ?_⟩
  have hdefaults : c.EveryDefault fun v => v.HasPlain ∧ v.BindsOnce :=
    (toValue_of_plain h).2.and hread.bindsOnce
  have hiff {v : Value} (hv : v.HasPlain ∧ v.BindsOnce) : v.normal.same v = true ↔
      v.IsPlain IsFinite := by
    obtain ⟨⟨j, hj⟩, honce⟩ := hv
    exact Value.normal_same_iff hj honce
  rw [same_mapDefaults_iff]
  constructor
  · intro hsame
    exact (hdefaults.and hsame).imp fun v hv => (hiff hv.1).mp hv.2
  · intro hplain
    exact (hdefaults.and hplain).imp fun v hv => (hiff hv.1).mpr hv.2

/-- Dates in a tuple become texts in a list, so that the component that is read again is another
one. -/
theorem plain_idempotent_dates :
    let c := ofDefault (.tuple [.date ⟨2001, 12, 14⟩])
    let default := Json.array [.text "2001-12-14"]
    let es : List (Text × Json) := [
      ("workloadType", .text "core.hydra.io/v1alpha1.Singleton"), ("osType", .text "linux"),
      ("arch", .text "amd64"),
      ("parameters", .array [.object [("name", .text "size"), ("description", .null),
        ("type", .text "Number"), ("required", .bool false), ("default", default)]]),
      ("containers", .array []), ("workloadSettings", .array [])]
    c.IsRead ∧ c.plain = .ok es ∧
      ∃ c₂, ofValue (Json.object es).toValue = .ok c₂ ∧ c₂.plain = .ok es ∧ c₂.same c = false := by
  intro c default es
  have hread : c.IsRead := by
    apply IsRead.value _ (ofValue_toValue c)
    simp [c, ofDefault, toValue, fields, record, ofList, ofOption, Parameter.toValue,
      Value.BindsOnce, Value.BindOnceEntries, Value.BindOnceItems, Value.HaveDistinctKeys,
      Value.IsHashable, Value.same_text, Text.ofString_beq]
  have hplain : c.plain = .ok es := rfl
  obtain ⟨c₂, hc₂, hplain₂, hsame⟩ := plain_idempotent hread hplain
  refine ⟨hread, hplain, c₂, hc₂, hplain₂, ?_⟩
  rw [Bool.eq_false_iff, ne_eq, hsame, everyDefault_ofDefault]
  rintro ⟨j, hj, -⟩
  cases j <;> simp [Json.toValue] at hj

end Component

end Schematic
