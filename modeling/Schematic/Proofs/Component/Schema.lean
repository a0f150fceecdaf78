import Mathlib.Control.Basic
import Schematic.Proofs.Component.Problem
import Schematic.Proofs.Component.Record
import Schematic.Proofs.Value.Entries

/-!
# The schema of components

A schema says of a part of a document what it may be: a value of some kind, a list, or a record with
its fields under their wire names, in the order of their declaration, and with what stands for a
field that is absent. What a value gives by a schema is the value with all defaults filled in.

The readers of components follow their schemas: what they give, written back, is what the schema
gives, and their problems are those of the schema. So a law of all schemas is a law of these
readers.
-/

namespace Schematic

open Value (ofOption ofList ofInt32)

/-- The kinds of values that have no parts of their own. -/
inductive Schema.Leaf where
  | text
  | bool
  | int32
  | choice (tokens : List Text)

mutual

/-- What a part of a document may be. -/
inductive Schema where
  | any
  | leaf (l : Schema.Leaf)
  | optional (s : Schema)
  | list (s : Schema)
  | record (name : Text) (fields : List Schema.Field)

/-- A field of a record. A field without a default has to be there. -/
structure Schema.Field where
  name : Text
  default? : Option Value
  schema : Schema

end

namespace Schema

/-- What holds of a schema if it holds of the schemas of its parts holds of all schemas. -/
@[elab_as_elim, induction_eliminator]
theorem induct {motive : Schema → Prop} (any : motive .any) (leaf : ∀ l, motive (.leaf l))
    (optional : ∀ s, motive s → motive (.optional s)) (list : ∀ s, motive s → motive (.list s))
    (record : ∀ name fields, (∀ f ∈ fields, motive f.schema) → motive (.record name fields))
    (s : Schema) :
    motive s :=
  Schema.rec (motive_1 := motive) (motive_2 := fun f => motive f.schema)
    (motive_3 := fun fields => ∀ f ∈ fields, motive f.schema)
    any leaf optional list record (fun _ _ _ h => h) (List.forall_mem_nil _)
    (fun _ _ hf hfields => List.forall_mem_cons.mpr ⟨hf, hfields⟩) s

/-! ### Reading by a schema -/

/-- What a value gives as one of a kind. -/
def Leaf.read (d : Dialect) : Leaf → Value → Checked Value
  | .text, v => .text <$> FieldReader.text d v
  | .bool, v => .bool <$> FieldReader.bool d v
  | .int32, v => ofInt32 <$> FieldReader.int32 d v
  | .choice tokens, v => .text <$> FieldReader.choice tokens id d v

mutual

/-- What a value gives by a schema. -/
def read (d : Dialect) : Schema → Value → Checked Value
  | .any, v => .valid v
  | .leaf l, v => l.read d v
  | .optional s, v => if v.isNull then .valid .null else s.read d v
  | .list s, v =>
    match FieldReader.items? v with
    | some vs => .list <$> Checked.list (vs.zipIdx.map fun (w, i) => (s.read d w).under (.index i))
    | none => .fail (.notList d)
  | .record name fields, v =>
    match v with
    | .map es => .map <$> readFields d fields es
    | _ => .fail (.notRecord d name)

def Field.read (d : Dialect) : Field → List (Value × Value) → Checked Value
  | ⟨name, default?, s⟩, es =>
    match Value.get? name es, default? with
    | some v, _ => (s.read d v).under (.name name)
    | none, some v => .valid v
    | none, none => .invalid [⟨[.name name], .missing⟩]

/-- The entries for some fields under their names. -/
def readFields (d : Dialect) : List Field → List (Value × Value) → Checked (List (Value × Value))
  | [], _ => pure []
  | f :: fields, es =>
    (fun v rest => (.text f.name, v) :: rest) <$> f.read d es <*> readFields d fields es

end

/-- A field is read from its entry, or has its default, or is missing. -/
lemma Field.read_eq (d : Dialect) (f : Field) (es : List (Value × Value)) : f.read d es =
    match Value.get? f.name es, f.default? with
    | some v, _ => (f.schema.read d v).under (.name f.name)
    | none, some v => .valid v
    | none, none => .invalid [⟨[.name f.name], .missing⟩] := by
  cases f
  rfl

/-- The fields of the records of a schema. -/
def fields : Schema → List Field
  | .record _ fields => fields
  | _ => []

def Field.needed (name : Text) (s : Schema) : Field := ⟨name, none, s⟩

def Field.defaulted (name : Text) (v : Value) (s : Schema) : Field := ⟨name, some v, s⟩

/-- A field that may be null, and is null by default. -/
def Field.optional (name : Text) (s : Schema) : Field := .defaulted name .null (.optional s)

/-- A list that is empty by default. -/
def Field.listed (name : Text) (s : Schema) : Field := .defaulted name (.list []) (.list s)

/-! ### What is read -/

section

variable {d : Dialect} {v w : Value} {name : Text} {fields : List Field} {fs : List (Value × Value)}

/-- What a field gives stands under its name. -/
lemma get?_of_readFields {es : List (Value × Value)} (hnames : (fields.map Field.name).Nodup)
    (h : readFields d fields es = .valid fs) {f : Field} (hf : f ∈ fields) :
    ∃ w, f.read d es = .valid w ∧ Value.get? f.name fs = some w := by
  induction fields generalizing fs with
  | nil => cases hf
  | cons g fields ih =>
    rw [readFields, Checked.seq_eq_valid_iff] at h
    obtain ⟨w, rest, hw, hrest, rfl⟩ := h
    obtain ⟨hg, hnames⟩ := List.nodup_cons.mp hnames
    rcases List.mem_cons.mp hf with rfl | hf
    · exact ⟨w, hw, Value.get?_cons_self _ _ _⟩
    · obtain ⟨w', hw', hget⟩ := ih hnames hrest hf
      have hne : Value.text g.name ≠ .text f.name := by
        intro heq
        exact hg (List.mem_map.mpr ⟨f, hf, (Value.text.inj heq).symm⟩)
      exact ⟨w', hw', by rw [Value.get?_cons_of_ne hne, hget]⟩

/-- A record is read from entries, and what it has under a name is what these entries give for the
field. -/
lemma field_of_read (hnames : (fields.map Field.name).Nodup)
    (h : (record name fields).read d v = .valid (.map fs)) {f : Field} (hf : f ∈ fields)
    (hget : Value.get? f.name fs = some w) :
    ∃ es, v = .map es ∧ f.read d es = .valid w := by
  cases v with
  | map es =>
    rw [read, Checked.map_eq_valid_iff] at h
    obtain ⟨fs', hfs, heq⟩ := h
    obtain rfl := Value.map.inj heq
    obtain ⟨w', hw', hget'⟩ := get?_of_readFields hnames hfs hf
    obtain rfl := Option.some.inj (hget.symm.trans hget')
    exact ⟨es, rfl, hw'⟩
  | _ => cases h

/-- An item of what is read as a list is read from an item of the value. -/
lemma item_of_read {s : Schema} {ws : List Value} (h : s.list.read d v = .valid (.list ws))
    (hw : w ∈ ws) :
    ∃ us u, FieldReader.items? v = some us ∧ u ∈ us ∧ s.read d u = .valid w := by
  rw [read] at h
  cases hitems : FieldReader.items? v with
  | none =>
    rw [hitems] at h
    cases h
  | some us =>
    simp only [hitems, Checked.map_eq_valid_iff, Checked.list_eq_valid_iff] at h
    obtain ⟨ws', hws, heq⟩ := h
    obtain rfl := Value.list.inj heq
    have hmem : Checked.valid w ∈ ws'.map Checked.valid := List.mem_map_of_mem hw
    rw [← hws] at hmem
    obtain ⟨⟨u, i⟩, hui, hread⟩ := List.mem_map.mp hmem
    exact ⟨us, u, rfl, List.fst_mem_of_mem_zipIdx hui, Checked.under_eq_valid_iff.mp hread⟩

end

end Schema

/-! ### Schemas of the records -/

open Schema (Field)

def Schema.text : Schema := .leaf .text

def Schema.int32 : Schema := .leaf .int32

def ParameterType.schema : Schema := .leaf (.choice ["Boolean", "String", "Number", "Null"])

def AccessMode.schema : Schema := .leaf (.choice ["RW", "RO"])

def SharingPolicy.schema : Schema := .leaf (.choice ["Shared", "Exclusive"])

def PortProtocol.schema : Schema := .leaf (.choice ["TCP", "UDP", "SCTP"])

def Parameter.schema : Schema := .record "Parameter" [
  .needed "name" .text, .optional "description" .text, .needed "type" ParameterType.schema,
  .defaulted "required" (.bool false) (.leaf .bool), .defaulted "default" .null .any]

def WorkloadSetting.schema : Schema := .record "WorkloadSetting" [
  .needed "name" .text, .optional "description" .text, .needed "type" ParameterType.schema,
  .defaulted "required" (.bool false) (.leaf .bool), .defaulted "default" .null .any,
  .optional "fromParam" .text]

def Env.schema : Schema := .record "Env" [
  .needed "name" .text, .optional "value" .text, .optional "fromParam" .text]

def Port.schema : Schema := .record "Port" [
  .needed "name" .text, .needed "containerPort" .int32,
  .defaulted "protocol" (.text "TCP") PortProtocol.schema]

def Exec.schema : Schema := .record "Exec" [.needed "command" (.list .text)]

def HttpHeader.schema : Schema := .record "HttpHeader" [.needed "name" .text, .needed "value" .text]

def HttpGet.schema : Schema := .record "HttpGet" [
  .needed "path" .text, .needed "port" .int32, .listed "httpHeaders" HttpHeader.schema]

def TcpSocket.schema : Schema := .record "TcpSocket" [.needed "port" .int32]

/-- A check on the health of a container. -/
def HealthProbe.schema : Schema := .record "HealthProbe" [
  .optional "exec" Exec.schema, .optional "httpGet" HttpGet.schema,
  .optional "tcpSocket" TcpSocket.schema, .defaulted "initialDelaySeconds" (.int 0) .int32,
  .defaulted "periodSeconds" (.int 10) .int32, .defaulted "timeoutSeconds" (.int 1) .int32,
  .defaulted "successThreshold" (.int 1) .int32, .defaulted "failureThreshold" (.int 3) .int32]

def Requirement.schema (name : Text) : Schema := .record name [.needed "required" .text]

def Path.schema : Schema := .record "Path" [
  .needed "name" .text, .needed "path" .text,
  .defaulted "accessMode" (.text "RW") AccessMode.schema,
  .defaulted "sharingPolicy" (.text "Exclusive") SharingPolicy.schema]

def Requirement.default (amount : Text) : Value := .map [(.text "required", .text amount)]

def Resources.schema : Schema := .record "Resources" [
  .defaulted "cpu" (Requirement.default "1") (Requirement.schema "CPU"),
  .defaulted "memory" (Requirement.default "1G") (Requirement.schema "Memory"),
  .defaulted "gpu" (Requirement.default "0") (Requirement.schema "GPU"),
  .listed "paths" Path.schema]

def Resources.default : Value := .map [
  (.text "cpu", Requirement.default "1"), (.text "memory", Requirement.default "1G"),
  (.text "gpu", Requirement.default "0"), (.text "paths", .list [])]

def Container.schema : Schema := .record "Container" [
  .needed "name" .text, .needed "image" .text,
  .defaulted "resources" Resources.default Resources.schema, .listed "env" Env.schema,
  .listed "ports" Port.schema, .optional "livenessProbe" HealthProbe.schema,
  .optional "readinessProbe" HealthProbe.schema]

def Component.schema : Schema := .record "Component" [
  .defaulted "workloadType" (.text "core.hydra.io/v1alpha1.Singleton") .text,
  .defaulted "osType" (.text "linux") .text, .defaulted "arch" (.text "amd64") .text,
  .listed "parameters" Parameter.schema, .listed "containers" Container.schema,
  .listed "workloadSettings" WorkloadSetting.schema]

/-! ### Readers that follow a schema -/

namespace Checked

variable {α β : Type}

instance : LawfulApplicative Checked where
  map_const := rfl
  id_map r := by cases r <;> rfl
  seqLeft_eq r s := by cases r <;> cases s <;> rfl
  seqRight_eq r s := by cases r <;> cases s <;> rfl
  pure_seq f r := by cases r <;> rfl
  map_pure f a := rfl
  seq_pure f a := by cases f <;> rfl
  seq_assoc r f g := by
    cases g <;> cases f <;> cases r <;> simp [Functor.map, Seq.seq, Checked.map, Checked.apply]

lemma map_under (f : α → β) (step : PathStep) (r : Checked α) :
    f <$> r.under step = (f <$> r).under step := by
  cases r <;> rfl

/-- A function of the items of a list is applied to each of them. -/
lemma map_list (f : α → β) (rs : List (Checked α)) :
    List.map f <$> list rs = list (rs.map (f <$> ·)) := by
  induction rs with
  | nil => rfl
  | cons r rs ih =>
    have hcons : List.map f <$> (List.cons <$> r <*> list rs)
        = List.cons <$> (f <$> r) <*> (List.map f <$> list rs) := by
      simp only [functor_norm]
      rfl
    rw [ih] at hcons
    exact hcons

end Checked

/-- What a reader gives, written back, is what a schema gives. -/
def FieldReader.Follows {α : Type} (read : FieldReader α) (write : α → Value) (s : Schema) : Prop :=
  ∀ d v, write <$> read d v = s.read d v

namespace FieldReader

variable {α : Type} {read : FieldReader α} {write : α → Value} {s : Schema}

lemma follows_any : any.Follows id .any := by
  intro d v
  rfl

lemma follows_text : text.Follows .text .text := by
  intro d v
  rfl

lemma follows_bool : bool.Follows .bool (.leaf .bool) := by
  intro d v
  rfl

lemma follows_int32 : int32.Follows ofInt32 .int32 := by
  intro d v
  rfl

/-- A choice follows the schema of its tokens. -/
lemma follows_choice (all : List α) (token : α → Text) :
    (choice all token).Follows (fun a => .text (token a)) (.leaf (.choice (all.map token))) := by
  intro d v
  simp only [Schema.read, Schema.Leaf.read, choice, id_eq, List.map_id, List.find?_map,
    Function.comp_def]
  cases text d v with
  | invalid ps => rfl
  | valid t =>
    by_cases hlone : hasLoneHalf t = true
    · simp only [hlone]
      rfl
    · simp only [hlone]
      cases all.find? fun a => token a == t <;> rfl

/-- What may be missing follows the schema of what may be missing. -/
lemma Follows.optional (h : read.Follows write s) :
    (optional read).Follows (ofOption write) (.optional s) := by
  intro d v
  rw [Schema.read, ← h d v]
  cases v with
  | null => rfl
  | _ => exact (comp_map some (ofOption write) (read d _)).symm

/-- A list follows the schema of its items in a list. -/
lemma Follows.list (h : read.Follows write s) : (list read).Follows (ofList write) (.list s) := by
  intro d v
  rw [Schema.read, FieldReader.list]
  cases items? v with
  | none => rfl
  | some vs =>
    have hitems := Checked.map_list write (vs.zipIdx.map fun (w, i) => (read d w).under (.index i))
    simp only [List.map_map, Function.comp_def, Checked.map_under, h d] at hitems
    calc ofList write <$> Checked.list (vs.zipIdx.map fun (w, i) => (read d w).under (.index i))
      = Value.list <$> (List.map write <$> Checked.list _) := comp_map (List.map write) Value.list _
      _ = Value.list <$> Checked.list _ := congrArg (Value.list <$> ·) hitems

/-- A record follows a schema if its fields do. -/
lemma follows_record {name : Text} {read : Fields → Checked α} {fields : List Field}
    (h : ∀ fs : Fields, write <$> read fs
      = Value.map <$> Schema.readFields fs.dialect fields fs.entries) :
    (record name read).Follows write (.record name fields) := by
  intro d v
  cases v with
  | map es => exact h ⟨d, es⟩
  | _ => rfl

section

variable (h : read.Follows write s) (fs : Fields) (name : Text)
include h

/-- A needed field follows the schema of such a field. -/
lemma Follows.needed :
    write <$> fs.need name read = (Field.needed name s).read fs.dialect fs.entries := by
  simp only [Fields.need, Field.needed, Field.read]
  cases Value.get? name fs.entries with
  | none => rfl
  | some v => rw [Checked.map_under, h]

/-- A field with a default follows the schema of such a field. -/
lemma Follows.defaulted (default : α) (v : Value) (hv : write default = v) :
    write <$> fs.take name default read
      = (Field.defaulted name v s).read fs.dialect fs.entries := by
  simp only [Fields.take, Field.defaulted, Field.read, ← hv]
  cases Value.get? name fs.entries with
  | none => rfl
  | some v => rw [Checked.map_under, h]

lemma Follows.optionalField :
    ofOption write <$> fs.take name none (FieldReader.optional read)
      = (Field.optional name s).read fs.dialect fs.entries :=
  h.optional.defaulted fs name none .null rfl

lemma Follows.listed :
    ofList write <$> fs.take name [] (FieldReader.list read)
      = (Field.listed name s).read fs.dialect fs.entries :=
  h.list.defaulted fs name [] (.list []) rfl

end

end FieldReader

open FieldReader

lemma ParameterType.follows : ParameterType.read.Follows (fun t => .text (token t)) schema :=
  follows_choice all token

lemma AccessMode.follows : AccessMode.read.Follows (fun m => .text (token m)) schema :=
  follows_choice all token

lemma SharingPolicy.follows : SharingPolicy.read.Follows (fun p => .text (token p)) schema :=
  follows_choice all token

lemma PortProtocol.follows : PortProtocol.read.Follows (fun p => .text (token p)) schema :=
  follows_choice all token

/-- A parameter follows its schema. -/
lemma Parameter.follows : Parameter.read.Follows toValue schema := by
  apply follows_record
  intro fs
  simp only [Schema.readFields, ← follows_text.needed fs, ← follows_text.optionalField fs,
    ← ParameterType.follows.needed fs, ← follows_bool.defaulted fs _ false (.bool false) rfl,
    ← follows_any.defaulted fs _ .null .null rfl]
  simp only [functor_norm, seq_pure]
  rfl

/-- A setting follows its schema. -/
lemma WorkloadSetting.follows : WorkloadSetting.read.Follows toValue schema := by
  apply follows_record
  intro fs
  simp only [Schema.readFields, ← follows_text.needed fs, ← follows_text.optionalField fs,
    ← ParameterType.follows.needed fs, ← follows_bool.defaulted fs _ false (.bool false) rfl,
    ← follows_any.defaulted fs _ .null .null rfl]
  simp only [functor_norm, seq_pure]
  rfl

/-- A variable follows its schema. -/
lemma Env.follows : Env.read.Follows toValue schema := by
  apply follows_record
  intro fs
  simp only [Schema.readFields, ← follows_text.needed fs, ← follows_text.optionalField fs]
  simp only [functor_norm, seq_pure]
  rfl

/-- A port follows its schema. -/
lemma Port.follows : Port.read.Follows toValue schema := by
  apply follows_record
  intro fs
  simp only [Schema.readFields, ← follows_text.needed fs, ← follows_int32.needed fs,
    ← PortProtocol.follows.defaulted fs _ .tcp (.text "TCP") rfl]
  simp only [functor_norm, seq_pure]
  rfl

lemma Exec.follows : Exec.read.Follows toValue schema := by
  apply follows_record
  intro fs
  simp only [Schema.readFields, ← follows_text.list.needed fs]
  simp only [functor_norm, seq_pure]
  rfl

lemma HttpHeader.follows : HttpHeader.read.Follows toValue schema := by
  apply follows_record
  intro fs
  simp only [Schema.readFields, ← follows_text.needed fs]
  simp only [functor_norm, seq_pure]
  rfl

lemma HttpGet.follows : HttpGet.read.Follows toValue schema := by
  apply follows_record
  intro fs
  simp only [Schema.readFields, ← follows_text.needed fs, ← follows_int32.needed fs,
    ← HttpHeader.follows.listed fs]
  simp only [functor_norm, seq_pure]
  rfl

lemma TcpSocket.follows : TcpSocket.read.Follows toValue schema := by
  apply follows_record
  intro fs
  simp only [Schema.readFields, ← follows_int32.needed fs]
  simp only [functor_norm, seq_pure]
  rfl

/-- A probe follows its schema. -/
lemma HealthProbe.follows : HealthProbe.read.Follows toValue schema := by
  apply follows_record
  intro fs
  simp only [Schema.readFields, ← Exec.follows.optionalField fs, ← HttpGet.follows.optionalField fs,
    ← TcpSocket.follows.optionalField fs, ← follows_int32.defaulted fs _ 0 (.int 0) rfl,
    ← follows_int32.defaulted fs _ 10 (.int 10) rfl, ← follows_int32.defaulted fs _ 1 (.int 1) rfl,
    ← follows_int32.defaulted fs _ 3 (.int 3) rfl]
  simp only [functor_norm, seq_pure]
  rfl

lemma Requirement.follows (name : Text) :
    (Requirement.read name).Follows toValue (schema name) := by
  apply follows_record
  intro fs
  simp only [Schema.readFields, ← follows_text.needed fs]
  simp only [functor_norm, seq_pure]
  rfl

lemma Path.follows : Path.read.Follows toValue schema := by
  apply follows_record
  intro fs
  simp only [Schema.readFields, ← follows_text.needed fs,
    ← AccessMode.follows.defaulted fs _ .readWrite (.text "RW") rfl,
    ← SharingPolicy.follows.defaulted fs _ .exclusive (.text "Exclusive") rfl]
  simp only [functor_norm, seq_pure]
  rfl

/-- Resources follow their schema. -/
lemma Resources.follows : Resources.read.Follows toValue schema := by
  apply follows_record
  intro fs
  simp only [Schema.readFields,
    ← (Requirement.follows "CPU").defaulted fs _ ⟨"1"⟩ (Requirement.default "1") rfl,
    ← (Requirement.follows "Memory").defaulted fs _ ⟨"1G"⟩ (Requirement.default "1G") rfl,
    ← (Requirement.follows "GPU").defaulted fs _ ⟨"0"⟩ (Requirement.default "0") rfl,
    ← Path.follows.listed fs]
  simp only [functor_norm, seq_pure]
  rfl

/-- A container follows its schema. -/
lemma Container.follows : Container.read.Follows toValue schema := by
  apply follows_record
  intro fs
  simp only [Schema.readFields, ← follows_text.needed fs,
    ← Resources.follows.defaulted fs _ {} Resources.default rfl, ← Env.follows.listed fs,
    ← Port.follows.listed fs, ← HealthProbe.follows.optionalField fs]
  simp only [functor_norm, seq_pure]
  rfl

/-- A component is read by its schema. -/
theorem Component.follows : Component.read.Follows toValue schema := by
  apply follows_record
  intro fs
  simp only [Schema.readFields,
    ← follows_text.defaulted fs _ _ (.text "core.hydra.io/v1alpha1.Singleton") rfl,
    ← follows_text.defaulted fs _ _ (.text "linux") rfl,
    ← follows_text.defaulted fs _ _ (.text "amd64") rfl,
    ← Parameter.follows.listed fs, ← Container.follows.listed fs,
    ← WorkloadSetting.follows.listed fs]
  simp only [functor_norm, seq_pure]
  rfl

section

variable {α : Type} {read : FieldReader α} {write : α → Value} {s : Schema}

/-- What a reader gives is read by its schema as what it is written as. -/
lemma FieldReader.Follows.read_valid (h : read.Follows write s) {d : Dialect} {v : Value} {a : α}
    (hread : read d v = .valid a) : s.read d v = .valid (write a) := by
  rw [← h d v, hread]
  rfl

/-- What is written is read by the schema as it stands. -/
lemma FieldReader.Follows.read_write (h : read.Follows write s) (hread : read.Inverts write)
    (d : Dialect) (a : α) :
    s.read d (write a) = .valid (write a) :=
  h.read_valid (hread d a)

end

/-! ### Well-formed schemas -/

/-- The tokens of a choice are texts that have bytes. -/
def Schema.Leaf.IsWellFormed : Leaf → Prop
  | .choice tokens => ∀ t ∈ tokens, hasLoneHalf t = false
  | _ => True

instance : (l : Schema.Leaf) → Decidable l.IsWellFormed
  | .choice tokens => inferInstanceAs (Decidable (∀ t ∈ tokens, hasLoneHalf t = false))
  | .text | .bool | .int32 => isTrue trivial

/-- No record has two fields of one name, and every default gives itself. -/
inductive Schema.IsWellFormed : Schema → Prop
  | any : IsWellFormed .any
  | leaf {l : Leaf} : l.IsWellFormed → IsWellFormed (.leaf l)
  | optional {s : Schema} : s.IsWellFormed → IsWellFormed (.optional s)
  | list {s : Schema} : s.IsWellFormed → IsWellFormed (.list s)
  | record {name : Text} {fields : List Field} :
      (fields.map Field.name).Nodup →
      (∀ f ∈ fields, ∀ v ∈ f.default?, ∀ d, f.schema.read d v = .valid v) →
      (∀ f ∈ fields, f.schema.IsWellFormed) → IsWellFormed (.record name fields)

namespace Schema

@[simp]
lemma isWellFormed_optional {s : Schema} : s.optional.IsWellFormed ↔ s.IsWellFormed := by
  constructor
  · rintro ⟨⟩
    assumption
  · exact .optional

@[simp]
lemma isWellFormed_list {s : Schema} : s.list.IsWellFormed ↔ s.IsWellFormed := by
  constructor
  · rintro ⟨⟩
    assumption
  · exact .list

/-- The default of a field gives itself, and the field has a well-formed schema. -/
def Field.IsWellFormed (f : Field) : Prop :=
  (∀ v ∈ f.default?, ∀ d, f.schema.read d v = .valid v) ∧ f.schema.IsWellFormed

variable {name : Text} {s : Schema}

@[simp]
lemma isWellFormed_needed : (Field.needed name s).IsWellFormed ↔ s.IsWellFormed := by
  simp [Field.IsWellFormed, Field.needed]

lemma isWellFormed_defaulted {v : Value} (hv : ∀ d, s.read d v = .valid v) :
    (Field.defaulted name v s).IsWellFormed ↔ s.IsWellFormed := by
  simp [Field.IsWellFormed, Field.defaulted, hv]

@[simp]
lemma isWellFormed_optionalField : (Field.optional name s).IsWellFormed ↔ s.IsWellFormed :=
  (isWellFormed_defaulted fun _ => by simp [read, Value.isNull]).trans isWellFormed_optional

@[simp]
lemma isWellFormed_listed : (Field.listed name s).IsWellFormed ↔ s.IsWellFormed :=
  (isWellFormed_defaulted fun _ => rfl).trans isWellFormed_list

/-- A record is well formed if its fields are, under distinct names. -/
lemma isWellFormed_record {fields : List Field} (hnames : (fields.map Field.name).Nodup)
    (h : ∀ f ∈ fields, f.IsWellFormed) : (record name fields).IsWellFormed := by
  apply IsWellFormed.record hnames
  · intro f hf
    exact (h f hf).1
  · intro f hf
    exact (h f hf).2

end Schema

/-- A field with a written default is well-formed. -/
lemma FieldReader.Follows.isWellFormed {α : Type} {read : FieldReader α} {write : α → Value}
    {s : Schema} (h : read.Follows write s) (hread : read.Inverts write) (name : Text) (a : α)
    (hs : s.IsWellFormed) :
    (Field.defaulted name (write a) s).IsWellFormed :=
  (Schema.isWellFormed_defaulted fun d => h.read_write hread d a).mpr hs

lemma isWellFormed_text (name t : Text) : (Field.defaulted name (.text t) .text).IsWellFormed :=
  follows_text.isWellFormed inverts_text name t (.leaf trivial)

lemma isWellFormed_int32 (name : Text) (n : Int32) :
    (Field.defaulted name (.int n.toInt) .int32).IsWellFormed :=
  follows_int32.isWellFormed inverts_int32 name n (.leaf trivial)

lemma isWellFormed_bool (name : Text) (b : Bool) :
    (Field.defaulted name (.bool b) (.leaf .bool)).IsWellFormed :=
  follows_bool.isWellFormed inverts_bool name b (.leaf trivial)

lemma isWellFormed_any (name : Text) (v : Value) : (Field.defaulted name v .any).IsWellFormed :=
  (Schema.isWellFormed_defaulted fun _ => rfl).mpr .any

open Schema

@[simp]
lemma Schema.isWellFormed_textSchema : text.IsWellFormed := .leaf trivial

@[simp]
lemma Schema.isWellFormed_int32Schema : int32.IsWellFormed := .leaf trivial

lemma ParameterType.isWellFormed : schema.IsWellFormed := .leaf (by decide)

lemma AccessMode.isWellFormed : schema.IsWellFormed := .leaf (by decide)

lemma SharingPolicy.isWellFormed : schema.IsWellFormed := .leaf (by decide)

lemma PortProtocol.isWellFormed : schema.IsWellFormed := .leaf (by decide)

lemma Parameter.isWellFormed : schema.IsWellFormed := by
  apply isWellFormed_record
  · decide
  · simp [ParameterType.isWellFormed, isWellFormed_bool, isWellFormed_any]

lemma WorkloadSetting.isWellFormed : schema.IsWellFormed := by
  apply isWellFormed_record
  · decide
  · simp [ParameterType.isWellFormed, isWellFormed_bool, isWellFormed_any]

lemma Env.isWellFormed : schema.IsWellFormed := by
  apply isWellFormed_record
  · decide
  · simp

/-- The schema of a port is well formed. -/
lemma Port.isWellFormed : schema.IsWellFormed := by
  apply isWellFormed_record
  · decide
  · have hprotocol : (Field.defaulted "protocol" (.text "TCP") PortProtocol.schema).IsWellFormed :=
      PortProtocol.follows.isWellFormed PortProtocol.inverts_read "protocol" .tcp
        PortProtocol.isWellFormed
    simp [hprotocol]

lemma Exec.isWellFormed : schema.IsWellFormed := by
  apply isWellFormed_record
  · decide
  · simp

lemma HttpHeader.isWellFormed : schema.IsWellFormed := by
  apply isWellFormed_record
  · decide
  · simp

lemma HttpGet.isWellFormed : schema.IsWellFormed := by
  apply isWellFormed_record
  · decide
  · simp [HttpHeader.isWellFormed]

lemma TcpSocket.isWellFormed : schema.IsWellFormed := by
  apply isWellFormed_record
  · decide
  · simp

/-- The schema of a probe is well formed. -/
lemma HealthProbe.isWellFormed : schema.IsWellFormed := by
  apply isWellFormed_record
  · decide
  · have hint (name : Text) (n : Int32) := isWellFormed_int32 name n
    simp only [List.forall_mem_cons, isWellFormed_optionalField]
    exact ⟨Exec.isWellFormed, HttpGet.isWellFormed, TcpSocket.isWellFormed, hint _ 0, hint _ 10,
      hint _ 1, hint _ 1, hint _ 3, List.forall_mem_nil _⟩

lemma Requirement.isWellFormed (name : Text) : (schema name).IsWellFormed := by
  apply isWellFormed_record
  · simp
  · simp

lemma Path.isWellFormed : schema.IsWellFormed := by
  apply isWellFormed_record
  · decide
  · have hmode : (Field.defaulted "accessMode" (.text "RW") AccessMode.schema).IsWellFormed :=
      AccessMode.follows.isWellFormed AccessMode.inverts_read "accessMode" .readWrite
        AccessMode.isWellFormed
    have hpolicy :
        (Field.defaulted "sharingPolicy" (.text "Exclusive") SharingPolicy.schema).IsWellFormed :=
      SharingPolicy.follows.isWellFormed SharingPolicy.inverts_read "sharingPolicy" .exclusive
        SharingPolicy.isWellFormed
    simp [hmode, hpolicy]

/-- The schema of resources is well formed. -/
lemma Resources.isWellFormed : schema.IsWellFormed := by
  have hneed (field name amount : Text) : (Field.defaulted field (Requirement.default amount)
      (Requirement.schema name)).IsWellFormed :=
    (Requirement.follows name).isWellFormed (Requirement.read_toValue · name) field ⟨amount⟩
      (Requirement.isWellFormed name)
  apply isWellFormed_record
  · decide
  · simp [Path.isWellFormed, hneed]

/-- The schema of a container is well formed. -/
lemma Container.isWellFormed : schema.IsWellFormed := by
  have hresources : (Field.defaulted "resources" Resources.default Resources.schema).IsWellFormed :=
    Resources.follows.isWellFormed Resources.read_toValue "resources" {} Resources.isWellFormed
  apply isWellFormed_record
  · decide
  · simp [hresources, Env.isWellFormed, Port.isWellFormed, HealthProbe.isWellFormed]

/-- The schema of components is well-formed. -/
theorem Component.isWellFormed : schema.IsWellFormed := by
  apply isWellFormed_record
  · decide
  · simp [isWellFormed_text, Parameter.isWellFormed, Container.isWellFormed,
      WorkloadSetting.isWellFormed]

end Schematic
