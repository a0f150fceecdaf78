import Schematic.Proofs.Component.Record
import Schematic.Proofs.Json.RoundTrip
import Schematic.Proofs.Value.Plain
import Schematic.Proofs.Yaml.Seen

/-!
# Components as plain data

Apart from the defaults of parameters and settings a component is made of texts, truth values and
integers of 32 bits. Whether its value is plain data of some kind is therefore a matter of the
defaults alone.
-/

namespace Schematic

open Value (ofOption ofList ofInt32 record)

/-- Every default of the parameters and of the settings of a component has a property. -/
structure Component.EveryDefault (P : Value → Prop) (c : Component) : Prop where
  parameters : ∀ p ∈ c.parameters, P p.default
  workloadSettings : ∀ s ∈ c.workloadSettings, P s.default

lemma Component.EveryDefault.imp {P Q : Value → Prop} {c : Component} (h : c.EveryDefault P)
    (himp : ∀ v, P v → Q v) : c.EveryDefault Q :=
  ⟨fun p hp => himp _ (h.parameters p hp), fun s hs => himp _ (h.workloadSettings s hs)⟩

lemma Component.EveryDefault.and {P Q : Value → Prop} {c : Component} (hp : c.EveryDefault P)
    (hq : c.EveryDefault Q) : c.EveryDefault fun v => P v ∧ Q v :=
  ⟨fun p h => ⟨hp.parameters p h, hq.parameters p h⟩,
    fun s h => ⟨hp.workloadSettings s h, hq.workloadSettings s h⟩⟩

/-- A name such as those of fields: it has bytes, and is short enough for a simple key. -/
def Text.IsFieldName (t : Text) : Prop :=
  Utf8.unwritable? t = none ∧ Yaml.isSimpleKey t = true ∧ t.length ≤ 100

instance (t : Text) : Decidable t.IsFieldName := inferInstanceAs (Decidable (_ ∧ _))

/-- Some names are distinct names of fields. -/
def Text.AreFieldNames (names : List Text) : Prop := names.Nodup ∧ ∀ name ∈ names, name.IsFieldName

instance (names : List Text) : Decidable (Text.AreFieldNames names) :=
  inferInstanceAs (Decidable (_ ∧ _))

/-- A property holds of all parts but possibly texts, numbers, integers past 32 bits and objects
with other names than those of fields. -/
structure Json.IsStructural (p : Json → Prop) : Prop where
  null : p .null
  bool : ∀ b, p (.bool b)
  int32 : ∀ n : Int32, p (.int n.toInt)
  array : ∀ js, p (.array js)
  object : ∀ es, Text.AreFieldNames (es.map Prod.fst) → p (.object es)

/-- The property holds of the words of the program too. -/
structure Json.HoldsOfWords (p : Json → Prop) : Prop extends IsStructural p where
  word : ∀ s : String, p (.text (.ofString s))

/-- The property holds of all texts too. -/
structure Json.IsCommon (p : Json → Prop) : Prop extends IsStructural p where
  text : ∀ t, p (.text t)

lemma Json.IsCommon.holdsOfWords {p : Json → Prop} (hp : IsCommon p) : HoldsOfWords p :=
  ⟨hp.toIsStructural, fun s => hp.text s⟩

/-- That texts have bytes holds of the words of a component. -/
lemma Json.holdsOfWords_isUnicode : HoldsOfWords IsUnicode where
  null := trivial
  bool _ := trivial
  int32 _ := trivial
  array _ := trivial
  object _ h e he := Utf8.unwritable?_eq_none_iff.mp (h.2 e.1 (List.mem_map_of_mem he)).1
  word := Text.isUnicode_ofString

lemma Json.natAbs_toInt_lt (n : Int32) : n.toInt.natAbs < 10 ^ 10 := by
  have hlow := n.le_toInt
  have hhigh := n.toInt_lt
  omega

lemma Json.isShort_int32 (n : Int32) : (Json.int n.toInt).IsShort := by
  have hlimit : 10 ^ 10 ≤ Value.writingLimit := Nat.pow_le_pow_right (by decide) (by decide)
  exact Nat.lt_of_lt_of_le (natAbs_toInt_lt n) hlimit

/-- That integers are short is kept by all that a component is written with. -/
lemma Json.isCommon_isShort : IsCommon IsShort where
  null := trivial
  bool _ := trivial
  int32 n := isShort_int32 n
  text _ := trivial
  array _ := trivial
  object _ _ := trivial

/-- That data is regular is kept by all that a component is written with. -/
lemma Json.isCommon_isRegular : IsCommon IsRegular where
  null := ⟨trivial, trivial, trivial⟩
  bool _ := ⟨trivial, trivial, trivial⟩
  int32 n := ⟨isShort_int32 n, trivial, trivial⟩
  text _ := ⟨trivial, trivial, trivial⟩
  array _ := ⟨trivial, trivial, trivial⟩
  object _ h := ⟨trivial, trivial, h.1⟩

/-- That names are distinct is kept by all that a component is written with. -/
lemma Json.isCommon_hasDistinctNames : IsCommon HasDistinctNames where
  null := trivial
  bool _ := trivial
  int32 _ := trivial
  text _ := trivial
  array _ := trivial
  object _ h := h.1

/-- That names have bytes is kept by all that a component is written with. -/
lemma Json.isCommon_hasUnicodeNames : IsCommon HasUnicodeNames where
  null := trivial
  bool _ := trivial
  int32 _ := trivial
  text _ := trivial
  array _ := trivial
  object _ h e he :=
    Utf8.unwritable?_eq_none_iff.mp (h.2 e.1 (List.mem_map_of_mem he)).1

/-- That names are narrow is kept by all that a component is written with. -/
lemma Json.isCommon_hasNarrowNames : IsCommon HasNarrowNames where
  null := trivial
  bool _ := trivial
  int32 _ := trivial
  text _ := trivial
  array _ := trivial
  object _ h e he hsimple := by
    have hwidth := Yaml.keyWidth_le hsimple
    have hlength := (h.2 e.1 (List.mem_map_of_mem he)).2.2
    omega

namespace Value

variable {p : Json → Prop} {α : Type} {write : α → Value}

/-- A text is plain data as it stands. -/
lemma isPlain_text_iff {t : Text} : (text t).IsPlain p ↔ p (.text t) := by
  constructor
  · rintro ⟨j, hj, hp⟩
    cases j with
    | text u =>
      rw [Json.toValue, Value.text.injEq] at hj
      rw [hj]
      exact hp
    | _ => simp [Json.toValue] at hj
  · exact fun hp => ⟨.text t, rfl, hp⟩

section

variable (hp : Json.IsStructural p)
include hp

lemma isPlain_bool (b : Bool) : (bool b).IsPlain p := ⟨.bool b, rfl, hp.bool b⟩

lemma isPlain_ofInt32 (n : Int32) : (ofInt32 n).IsPlain p := ⟨.int n.toInt, rfl, hp.int32 n⟩

/-- What may be missing is plain if what is there is. -/
lemma isPlain_ofOption_iff {o : Option α} :
    (ofOption write o).IsPlain p ↔ ∀ a ∈ o, (write a).IsPlain p := by
  cases o with
  | none =>
    have hnull : Value.null.IsPlain p := ⟨.null, rfl, hp.null⟩
    simpa [ofOption] using hnull
  | some a => simp [ofOption]

/-- A list is plain if its items are. -/
lemma isPlain_ofList_iff {as : List α} :
    (ofList write as).IsPlain p ↔ ∀ a ∈ as, (write a).IsPlain p := by
  -- The items are plain one by one.
  have hitems : (∃ js, as.map write = Json.toValues js ∧ Json.EveryItem p js) ↔
      ∀ a ∈ as, (write a).IsPlain p := by
    induction as with
    | nil => simpa using ⟨[], rfl, trivial⟩
    | cons a as ih =>
      rw [List.forall_mem_cons, ← ih]
      constructor
      · rintro ⟨js, hjs, hp⟩
        match js with
        | [] => simp [Json.toValues] at hjs
        | j :: js =>
          rw [List.map_cons, Json.toValues, List.cons.injEq] at hjs
          exact ⟨⟨j, hjs.1, hp.1⟩, js, hjs.2, hp.2⟩
      · rintro ⟨⟨j, hj, hpj⟩, js, hjs, hpjs⟩
        exact ⟨j :: js, by rw [List.map_cons, hj, hjs, Json.toValues], hpj, hpjs⟩
  rw [← hitems, ofList]
  constructor
  · -- Only an array is written as a list.
    rintro ⟨j, hj, hpj⟩
    match j with
    | .array js =>
      rw [Json.toValue, Value.list.injEq] at hj
      exact ⟨js, hj, hpj.2⟩
    | .null | .bool _ | .int _ | .float _ | .text _ | .object _ => simp [Json.toValue] at hj
  · rintro ⟨js, hjs, hpjs⟩
    exact ⟨.array js, by rw [hjs, Json.toValue], hp.array js, hpjs⟩

omit hp in
/-- The names of a record are those of the object that it is. -/
lemma names_of_toEntries {fields : List (Text × Value)} {es : List (Text × Json)}
    (h : (fields.map fun (k, v) => (text k, v)) = Json.toEntries es) :
    es.map Prod.fst = fields.map Prod.fst := by
  induction fields generalizing es with
  | nil =>
    cases es with
    | nil => rfl
    | cons e es => simp [Json.toEntries] at h
  | cons f fields ih =>
    match es with
    | [] => simp [Json.toEntries] at h
    | (k, j) :: es =>
      rw [List.map_cons, Json.toEntries, List.cons.injEq, Prod.mk.injEq, Value.text.injEq] at h
      rw [List.map_cons, List.map_cons, ih h.2, h.1.1]

/-- A record is plain if its fields are. -/
lemma isPlain_record_iff {fields : List (Text × Value)}
    (hnames : Text.AreFieldNames (fields.map Prod.fst)) :
    (record fields).IsPlain p ↔ ∀ f ∈ fields, f.2.IsPlain p := by
  -- The entries are plain one by one, as their names are texts anyway.
  have hentries : (∃ es, (fields.map fun (k, v) => (text k, v)) = Json.toEntries es ∧
      Json.EveryEntry p es) ↔ ∀ f ∈ fields, f.2.IsPlain p := by
    clear hnames
    induction fields with
    | nil => exact ⟨by simp, fun _ => ⟨[], rfl, trivial⟩⟩
    | cons f fields ih =>
      rw [List.forall_mem_cons, ← ih]
      constructor
      · rintro ⟨es, hes, hp⟩
        cases es with
        | nil => simp [Json.toEntries] at hes
        | cons e es =>
          obtain ⟨k, j⟩ := e
          rw [List.map_cons, Json.toEntries, List.cons.injEq, Prod.mk.injEq] at hes
          exact ⟨⟨j, hes.1.2, hp.1⟩, es, hes.2, hp.2⟩
      · rintro ⟨⟨j, hj, hpj⟩, es, hes, hpes⟩
        exact ⟨(f.1, j) :: es, by rw [List.map_cons, hes, Json.toEntries, ← hj], hpj, hpes⟩
  rw [← hentries, record]
  constructor
  · -- Only an object is written as a map.
    rintro ⟨j, hj, hpj⟩
    cases j with
    | object es =>
      rw [Json.toValue, Value.map.injEq] at hj
      exact ⟨es, hj, hpj.2⟩
    | _ => simp [Json.toValue] at hj
  · rintro ⟨es, hes, hpes⟩
    exact ⟨.object es, by rw [hes, Json.toValue],
      hp.object es (names_of_toEntries hes ▸ hnames), hpes⟩

end

end Value

/-! ### Parts of a component -/

section

open Value

variable {p : Json → Prop} (hp : Json.HoldsOfWords p)
include hp

lemma ParameterType.holds_token (t : ParameterType) : p (.text t.token) := by
  cases t <;> exact hp.word _

lemma AccessMode.holds_token (m : AccessMode) : p (.text m.token) := by
  cases m <;> exact hp.word _

lemma SharingPolicy.holds_token (s : SharingPolicy) : p (.text s.token) := by
  cases s <;> exact hp.word _

lemma PortProtocol.holds_token (q : PortProtocol) : p (.text q.token) := by
  cases q <;> exact hp.word _

/-- A parameter is plain if its texts and its default are. -/
lemma Parameter.isPlain_iff {q : Parameter} :
    q.toValue.IsPlain p ↔
      p (.text q.name) ∧ (∀ t ∈ q.description, p (.text t)) ∧ q.default.IsPlain p := by
  rw [toValue, isPlain_record_iff hp.toIsStructural (by simp only [List.map]; decide)]
  simp [isPlain_text_iff, isPlain_bool hp.toIsStructural, isPlain_ofOption_iff hp.toIsStructural,
    ParameterType.holds_token hp]

/-- A setting is plain if its texts and its default are. -/
lemma WorkloadSetting.isPlain_iff {s : WorkloadSetting} :
    s.toValue.IsPlain p ↔
      p (.text s.name) ∧ (∀ t ∈ s.description, p (.text t)) ∧ s.default.IsPlain p ∧
        ∀ t ∈ s.fromParam, p (.text t) := by
  rw [toValue, isPlain_record_iff hp.toIsStructural (by simp only [List.map]; decide)]
  simp [isPlain_text_iff, isPlain_bool hp.toIsStructural, isPlain_ofOption_iff hp.toIsStructural,
    ParameterType.holds_token hp]

lemma Env.isPlain_iff {e : Env} :
    e.toValue.IsPlain p ↔
      p (.text e.name) ∧ (∀ t ∈ e.value, p (.text t)) ∧ ∀ t ∈ e.fromParam, p (.text t) := by
  rw [toValue, isPlain_record_iff hp.toIsStructural (by simp only [List.map]; decide)]
  simp [isPlain_text_iff, isPlain_ofOption_iff hp.toIsStructural]

lemma Port.isPlain_iff {q : Port} : q.toValue.IsPlain p ↔ p (.text q.name) := by
  rw [toValue, isPlain_record_iff hp.toIsStructural (by simp only [List.map]; decide)]
  simp [isPlain_text_iff, isPlain_ofInt32 hp.toIsStructural, PortProtocol.holds_token hp]

lemma Exec.isPlain_iff {e : Exec} : e.toValue.IsPlain p ↔ ∀ t ∈ e.command, p (.text t) := by
  rw [toValue, isPlain_record_iff hp.toIsStructural (by simp only [List.map]; decide)]
  simp [isPlain_text_iff, isPlain_ofList_iff hp.toIsStructural]

lemma HttpHeader.isPlain_iff {h : HttpHeader} :
    h.toValue.IsPlain p ↔ p (.text h.name) ∧ p (.text h.value) := by
  rw [toValue, isPlain_record_iff hp.toIsStructural (by simp only [List.map]; decide)]
  simp [isPlain_text_iff]

lemma HttpGet.isPlain_iff {g : HttpGet} :
    g.toValue.IsPlain p ↔ p (.text g.path) ∧ ∀ h ∈ g.httpHeaders, h.toValue.IsPlain p := by
  rw [toValue, isPlain_record_iff hp.toIsStructural (by simp only [List.map]; decide)]
  simp [isPlain_text_iff, isPlain_ofInt32 hp.toIsStructural, isPlain_ofList_iff hp.toIsStructural]

lemma TcpSocket.isPlain_toValue (s : TcpSocket) : s.toValue.IsPlain p := by
  rw [toValue, isPlain_record_iff hp.toIsStructural (by simp only [List.map]; decide)]
  simp [isPlain_ofInt32 hp.toIsStructural]

/-- A probe is plain if its actions are. -/
lemma HealthProbe.isPlain_iff {h : HealthProbe} :
    h.toValue.IsPlain p ↔
      (∀ e ∈ h.exec, e.toValue.IsPlain p) ∧ ∀ g ∈ h.httpGet, g.toValue.IsPlain p := by
  rw [toValue, isPlain_record_iff hp.toIsStructural (by simp only [List.map]; decide)]
  simp [isPlain_ofInt32 hp.toIsStructural, isPlain_ofOption_iff hp.toIsStructural,
    TcpSocket.isPlain_toValue hp]

lemma Requirement.isPlain_iff {r : Requirement} : r.toValue.IsPlain p ↔ p (.text r.required) := by
  rw [toValue, isPlain_record_iff hp.toIsStructural (by simp only [List.map]; decide)]
  simp [isPlain_text_iff]

lemma Path.isPlain_iff {q : Path} : q.toValue.IsPlain p ↔ p (.text q.name) ∧ p (.text q.path) := by
  rw [toValue, isPlain_record_iff hp.toIsStructural (by simp only [List.map]; decide)]
  simp [isPlain_text_iff, AccessMode.holds_token hp, SharingPolicy.holds_token hp]

/-- Resources are plain if each of them is. -/
lemma Resources.isPlain_iff {r : Resources} :
    r.toValue.IsPlain p ↔
      r.cpu.toValue.IsPlain p ∧ r.memory.toValue.IsPlain p ∧ r.gpu.toValue.IsPlain p ∧
        ∀ q ∈ r.paths, q.toValue.IsPlain p := by
  rw [toValue, isPlain_record_iff hp.toIsStructural (by simp only [List.map]; decide)]
  simp [isPlain_ofList_iff hp.toIsStructural]

/-- A container is plain if its texts and its parts are. -/
lemma Container.isPlain_iff {k : Container} :
    k.toValue.IsPlain p ↔
      p (.text k.name) ∧ p (.text k.image) ∧ k.resources.toValue.IsPlain p ∧
        (∀ e ∈ k.env, e.toValue.IsPlain p) ∧ (∀ q ∈ k.ports, q.toValue.IsPlain p) ∧
        (∀ h ∈ k.livenessProbe, h.toValue.IsPlain p) ∧
        ∀ h ∈ k.readinessProbe, h.toValue.IsPlain p := by
  rw [toValue, isPlain_record_iff hp.toIsStructural (by simp only [List.map]; decide)]
  simp [isPlain_text_iff, isPlain_ofOption_iff hp.toIsStructural,
    isPlain_ofList_iff hp.toIsStructural]

/-- A component is plain if its texts and its parts are. -/
lemma Component.isPlain_iff {c : Component} :
    c.toValue.IsPlain p ↔
      p (.text c.workloadType) ∧ p (.text c.osType) ∧ p (.text c.arch) ∧
        (∀ q ∈ c.parameters, q.toValue.IsPlain p) ∧ (∀ k ∈ c.containers, k.toValue.IsPlain p) ∧
        ∀ s ∈ c.workloadSettings, s.toValue.IsPlain p := by
  rw [toValue, isPlain_record_iff hp.toIsStructural (by simp only [fields, List.map]; decide)]
  simp [fields, isPlain_text_iff, isPlain_ofList_iff hp.toIsStructural]

end

section

variable {p : Json → Prop} (hp : Json.IsCommon p)
include hp

lemma Parameter.isPlain_toValue_iff (q : Parameter) :
    q.toValue.IsPlain p ↔ q.default.IsPlain p := by
  simp [isPlain_iff hp.holdsOfWords, hp.text]

lemma WorkloadSetting.isPlain_toValue_iff (s : WorkloadSetting) :
    s.toValue.IsPlain p ↔ s.default.IsPlain p := by
  simp [isPlain_iff hp.holdsOfWords, hp.text]

lemma Container.isPlain_toValue (c : Container) : c.toValue.IsPlain p := by
  have hw := hp.holdsOfWords
  simp [isPlain_iff hw, Resources.isPlain_iff hw, Requirement.isPlain_iff hw, Path.isPlain_iff hw,
    Env.isPlain_iff hw, Port.isPlain_iff hw, HealthProbe.isPlain_iff hw, Exec.isPlain_iff hw,
    HttpGet.isPlain_iff hw, HttpHeader.isPlain_iff hw, hp.text]

/-- A component is plain data exactly when its defaults are. -/
theorem Component.isPlain_toValue_iff (c : Component) :
    c.toValue.IsPlain p ↔ c.EveryDefault (·.IsPlain p) := by
  simp only [isPlain_iff hp.holdsOfWords, hp.text, true_and, Container.isPlain_toValue hp,
    implies_true, Parameter.isPlain_toValue_iff hp, WorkloadSetting.isPlain_toValue_iff hp]
  exact ⟨fun h => ⟨h.1, h.2⟩, fun h => ⟨h.1, h.2⟩⟩

end

/-! ### Plain forms -/

section

variable {fields : List (Text × Value)} {es fs : List (Text × Json)}

/-- Fields that are plain data have themselves as their plain form, up to numbers that are not
finite. -/
lemma plainFields_eq (h : (fields.map fun (k, v) => (.text k, v)) = Json.toEntries es)
    (hdistinct : Json.EveryEntry Json.HasDistinctNames es)
    (hnames : Json.EveryEntry Json.HasUnicodeNames es) :
    plainFields fields = .ok (Json.finiteEntries es) := by
  induction fields generalizing es with
  | nil =>
    cases es with
    | nil => rfl
    | cons e es => simp [Json.toEntries] at h
  | cons f fields ih =>
    match es with
    | [] => simp [Json.toEntries] at h
    | (k, j) :: es =>
      rw [List.map_cons, Json.toEntries, List.cons.injEq, Prod.mk.injEq, Value.text.injEq] at h
      have hsettled := Json.settled_eq_self j.finite
        ((Json.every_finite_iff Json.isOfNames_hasDistinctNames j).mpr hdistinct.1)
      rw [plainFields, h.1.1, h.1.2, Json.plain_toValue j hnames.1, ok_bind,
        ih h.2 hdistinct.2 hnames.2, hsettled]
      rfl

/-- Only plain data whose names have bytes has a plain form. -/
lemma hasUnicodeNames_of_plainFields
    (h : (fields.map fun (k, v) => (.text k, v)) = Json.toEntries es)
    (hplain : plainFields fields = .ok fs) : Json.EveryEntry Json.HasUnicodeNames es := by
  induction fields generalizing es fs with
  | nil =>
    cases es with
    | nil => trivial
    | cons e es => simp [Json.toEntries] at h
  | cons f fields ih =>
    match es with
    | [] => trivial
    | (k, j) :: es =>
      rw [List.map_cons, Json.toEntries, List.cons.injEq, Prod.mk.injEq] at h
      obtain ⟨⟨-, hj⟩, hes⟩ := h
      rw [plainFields, hj] at hplain
      obtain ⟨i, hi, hplain⟩ := exists_of_bind_eq_ok hplain
      obtain ⟨gs, hgs, -⟩ := exists_of_bind_eq_ok hplain
      exact ⟨Json.hasUnicodeNames_of_plain j hi, ih hes hgs⟩

end

namespace Component

variable {c : Component} {es fs : List (Text × Json)}

/-- A component that is plain data is the value of an object. -/
lemma exists_object_of_isPlain {p : Json → Prop} (h : c.toValue.IsPlain p) :
    ∃ es, c.toValue = (Json.object es).toValue ∧ (Json.object es).Every p := by
  obtain ⟨j, hj, hp⟩ := h
  match j with
  | .object es => exact ⟨es, hj, hp⟩
  | .null | .bool _ | .int _ | .float _ | .text _ | .array _ =>
    simp [toValue, Value.record, Json.toValue] at hj

/-- A component whose defaults are plain data is the value of an object. -/
lemma exists_object (h : c.EveryDefault (·.IsPlain Json.IsRegular)) :
    ∃ es, c.toValue = (Json.object es).toValue ∧ (Json.object es).Every Json.IsRegular :=
  exists_object_of_isPlain ((isPlain_toValue_iff Json.isCommon_isRegular c).mpr h)

/-- The plain form of a component leaves out the numbers that are not finite. -/
lemma plain_eq_finite (h : c.toValue = (Json.object es).toValue)
    (hdistinct : (Json.object es).Every Json.HasDistinctNames)
    (hnames : (Json.object es).Every Json.HasUnicodeNames) :
    c.plain = .ok (Json.finiteEntries es) := by
  rw [toValue, Value.record, Json.toValue, Value.map.injEq] at h
  exact plainFields_eq h hdistinct.2 hnames.2

lemma plain_eq (h : c.toValue = (Json.object es).toValue)
    (hregular : (Json.object es).Every Json.IsRegular)
    (hnames : (Json.object es).Every Json.HasUnicodeNames) : c.plain = .ok es := by
  rw [plain_eq_finite h (Json.Every.imp (fun _ hj => hj.hasDistinctNames) _ hregular) hnames,
    Json.finiteEntries_eq_self es (Json.Every.imp (fun _ hj => hj.isFinite) _ hregular).2]

lemma areFieldNames_fields (c : Component) : Text.AreFieldNames (c.fields.map Prod.fst) := by
  simp only [fields, List.map]
  decide

/-- A component has a plain form only if the names in its defaults have bytes. -/
lemma hasUnicodeNames_of_plain (hc : c.toValue = (Json.object es).toValue) (h : c.plain = .ok fs) :
    (Json.object es).Every Json.HasUnicodeNames := by
  rw [toValue, Value.record, Json.toValue, Value.map.injEq] at hc
  have hnames : Text.AreFieldNames (es.map Prod.fst) :=
    Value.names_of_toEntries hc ▸ c.areFieldNames_fields
  exact ⟨Json.isCommon_hasUnicodeNames.object es hnames, hasUnicodeNames_of_plainFields hc h⟩

end Component

/-! ### Depth -/

namespace Value

variable {α : Type} {write : α → Value} {n : Nat}

/-- A record is one level deeper than the deepest of its fields. -/
lemma depth_record_le_iff {fields : List (Text × Value)} :
    (record fields).depth ≤ n + 1 ↔ ∀ f ∈ fields, f.2.depth ≤ n := by
  have hentries : depthEntries (fields.map fun (k, v) => (text k, v)) ≤ n ↔
      ∀ f ∈ fields, f.2.depth ≤ n := by
    induction fields with
    | nil => simp [depthEntries]
    | cons f fields ih => simp [depthEntries, ih]
  rw [record, depth]
  exact Nat.add_le_add_iff_right.trans hentries

/-- A list is one level deeper than the deepest of its items. -/
lemma depth_ofList_le_iff {as : List α} :
    (ofList write as).depth ≤ n + 1 ↔ ∀ a ∈ as, (write a).depth ≤ n := by
  have hitems : depthList (as.map write) ≤ n ↔ ∀ a ∈ as, (write a).depth ≤ n := by
    induction as with
    | nil => simp [depthList]
    | cons a as ih => simp [depthList, ih]
  rw [ofList, depth]
  exact Nat.add_le_add_iff_right.trans hitems

lemma depth_ofOption_le_iff {o : Option α} :
    (ofOption write o).depth ≤ n ↔ ∀ a ∈ o, (write a).depth ≤ n := by
  cases o <;> simp [ofOption, depth]

end Value

section

open Value

lemma Container.depth_toValue_le (c : Container) : c.toValue.depth ≤ 5 := by
  simp [toValue, Resources.toValue, Requirement.toValue, Path.toValue, Env.toValue, Port.toValue,
    HealthProbe.toValue, Exec.toValue, HttpGet.toValue, HttpHeader.toValue, TcpSocket.toValue,
    depth_record_le_iff, depth_ofList_le_iff, depth_ofOption_le_iff, depth, ofInt32]

/-- A component adds three levels to its defaults, and its containers are five levels deep. -/
lemma Component.depth_toValue_le {c : Component} {n : Nat} (hn : 5 ≤ n)
    (h : c.EveryDefault (·.depth ≤ n)) : c.toValue.depth ≤ n + 3 := by
  have hcontainers (k : Container) : k.toValue.depth ≤ n + 1 := by
    have := k.depth_toValue_le
    omega
  have hparameters (q : Parameter) (hq : q ∈ c.parameters) : q.toValue.depth ≤ n + 1 := by
    simp only [Parameter.toValue, depth_record_le_iff, List.forall_mem_cons]
    simp [depth, depth_ofOption_le_iff, h.parameters q hq]
  have hsettings (s : WorkloadSetting) (hs : s ∈ c.workloadSettings) :
      s.toValue.depth ≤ n + 1 := by
    simp only [WorkloadSetting.toValue, depth_record_le_iff, List.forall_mem_cons]
    simp [depth, depth_ofOption_le_iff, h.workloadSettings s hs]
  simp only [toValue, fields, depth_record_le_iff, List.forall_mem_cons, depth_ofList_le_iff, depth]
  simpa [hcontainers] using ⟨hparameters, hsettings⟩

end

end Schematic
