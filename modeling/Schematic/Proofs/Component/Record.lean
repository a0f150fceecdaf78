import Mathlib.Data.List.Basic
import Mathlib.Tactic.Lemma
import Schematic.Component.Plain
import Schematic.Proofs.Value.Entries

/-!
# Records are read back

Every part of a component is read back from the value that it is written as. A reader of a record
finds each field by its name, and a name that stands twice in a record would be found the first time
only.
-/

namespace Schematic

/-- Texts are compared as the strings that they are written as. -/
lemma Text.ofString_beq (s t : String) : (ofString s == ofString t) = (s == t) := by
  rw [Bool.eq_iff_iff, beq_iff_eq, beq_iff_eq, ofString, ofString]
  constructor
  · intro h
    have hinj : Function.Injective CodePoint.char := fun _ _ h => CodePoint.char.inj h
    exact String.toList_inj.mp (List.map_injective_iff.mpr hinj h)
  · rintro rfl
    rfl

namespace Value

/-- A field is found by its name. -/
lemma get?_record (name : Text) (fields : List (Text × Value)) :
    get? name (fields.map fun (k, v) => (.text k, v))
      = (fields.find? fun f => f.1 == name).map (·.2) := by
  rw [get?, List.find?_map]
  simp [Function.comp_def]

end Value

/-- A reader gives back everything that is written. -/
def FieldReader.Inverts {α : Type} (read : FieldReader α) (write : α → Value) : Prop :=
  ∀ dialect a, read dialect (write a) = .valid a

namespace FieldReader

open Value (ofOption ofList ofInt32)

variable {α : Type} {read : FieldReader α} {write : α → Value}

lemma inverts_text : text.Inverts .text := fun _ _ => rfl

lemma inverts_bool : bool.Inverts .bool := fun _ _ => rfl

/-- An integer is read back. -/
lemma inverts_int32 : int32.Inverts ofInt32 := by
  intro dialect n
  have hlow : ¬ n.toInt < int32Range.1 := Int.not_lt.mpr n.le_toInt
  have hhigh : ¬ int32Range.2 < n.toInt := Int.not_lt.mpr (Int.le_of_lt_add_one n.toInt_lt)
  simp only [ofInt32, int32]
  rw [if_neg hlow, if_neg hhigh, Int32.ofInt_toInt]

/-- A choice is read by its token, if no choice before it has the same one. -/
lemma inverts_choice {all : List α} {token : α → Text}
    (hlone : ∀ a, hasLoneHalf (token a) = false)
    (hfind : ∀ a, (all.find? fun b => token b == token a) = some a) :
    (choice all token).Inverts fun a => .text (token a) := by
  intro dialect a
  simp [choice, text, hlone a, hfind a]

/-- What may be missing is read back, unless it is written as null. -/
lemma inverts_optional (h : read.Inverts write) (hwrite : ∀ a, write a ≠ .null) :
    (optional read).Inverts (ofOption write) := by
  rintro dialect (_ | a)
  · rfl
  · have hread := h dialect a
    have hne := hwrite a
    unfold optional ofOption
    split
    · simp_all
    · simp_all [Checked.map]

/-- A list is read back. -/
lemma inverts_list (h : read.Inverts write) : (list read).Inverts (ofList write) := by
  intro dialect as
  have hzip (k : Nat) : Checked.list (((as.map write).zipIdx k).map fun p =>
      (read dialect p.1).under (.index p.2)) = .valid as := by
    induction as generalizing k with
    | nil => rfl
    | cons a as ih =>
      simp only [List.map_cons, List.zipIdx_cons, Checked.list, h dialect a, ih]
      rfl
  exact hzip 0

end FieldReader

namespace Checked

variable {α β : Type}

@[simp]
lemma map_valid (f : α → β) (a : α) : f <$> valid a = valid (f a) := rfl

@[simp]
lemma seq_valid (f : α → β) (a : α) : valid f <*> valid a = valid (f a) := rfl

@[simp]
lemma under_valid (step : PathStep) (a : α) : (valid a).under step = valid a := rfl

end Checked

open FieldReader

/-! ### Tokens -/

lemma ParameterType.inverts_read :
    ParameterType.read.Inverts fun t => .text (ParameterType.token t) :=
  inverts_choice (by rintro ⟨⟩ <;> rfl) (by rintro ⟨⟩ <;> rfl)

lemma AccessMode.inverts_read : AccessMode.read.Inverts fun m => .text (AccessMode.token m) :=
  inverts_choice (by rintro ⟨⟩ <;> rfl) (by rintro ⟨⟩ <;> rfl)

lemma SharingPolicy.inverts_read :
    SharingPolicy.read.Inverts fun p => .text (SharingPolicy.token p) :=
  inverts_choice (by rintro ⟨⟩ <;> rfl) (by rintro ⟨⟩ <;> rfl)

lemma PortProtocol.inverts_read : PortProtocol.read.Inverts fun p => .text (PortProtocol.token p) :=
  inverts_choice (by rintro ⟨⟩ <;> rfl) (by rintro ⟨⟩ <;> rfl)

/-! ### Parts of a component -/

lemma inverts_optional_text : (optional text).Inverts (Value.ofOption .text) :=
  inverts_optional inverts_text (by simp)

/-- The entries of a written record. -/
def Fields.ofRecord (dialect : Dialect) (fields : List (Text × Value)) : Fields :=
  ⟨dialect, fields.map fun (k, v) => (.text k, v)⟩

section

variable {α : Type} (dialect : Dialect) (fields : List (Text × Value)) (name : Text)

lemma record_eq (read : Fields → Checked α) :
    FieldReader.record name read dialect (Value.record fields)
      = read (.ofRecord dialect fields) := rfl

/-- A needed field is the one that the record is written with. -/
lemma Fields.need_eq (read : FieldReader α) :
    (ofRecord dialect fields).need name read =
      match fields.find? fun f => f.1 == name with
      | some f => (read dialect f.2).under (.name name)
      | none => .invalid [⟨[.name name], .missing⟩] := by
  rw [need, ofRecord, Value.get?_record]
  cases fields.find? fun f => f.1 == name <;> rfl

/-- A field with a default is the one that the record is written with. -/
lemma Fields.take_eq (default : α) (read : FieldReader α) :
    (ofRecord dialect fields).take name default read =
      match fields.find? fun f => f.1 == name with
      | some f => (read dialect f.2).under (.name name)
      | none => .valid default := by
  rw [take, ofRecord, Value.get?_record]
  cases fields.find? fun f => f.1 == name <;> rfl

end

section

variable (dialect : Dialect)

lemma Parameter.read_toValue (p : Parameter) : Parameter.read dialect p.toValue = .valid p := by
  simp [Parameter.read, Parameter.toValue, record_eq, Fields.need_eq, Fields.take_eq,
    Text.ofString_beq, inverts_text dialect, inverts_optional_text dialect,
    ParameterType.inverts_read dialect, inverts_bool dialect, any]

lemma WorkloadSetting.read_toValue (s : WorkloadSetting) :
    WorkloadSetting.read dialect s.toValue = .valid s := by
  simp [WorkloadSetting.read, WorkloadSetting.toValue, record_eq, Fields.need_eq, Fields.take_eq,
    Text.ofString_beq, inverts_text dialect, inverts_optional_text dialect,
    ParameterType.inverts_read dialect, inverts_bool dialect, any]

lemma Env.read_toValue (e : Env) : Env.read dialect e.toValue = .valid e := by
  simp [Env.read, Env.toValue, record_eq, Fields.need_eq, Fields.take_eq, Text.ofString_beq,
    inverts_text dialect, inverts_optional_text dialect]

lemma Port.read_toValue (p : Port) : Port.read dialect p.toValue = .valid p := by
  simp [Port.read, Port.toValue, record_eq, Fields.need_eq, Fields.take_eq, Text.ofString_beq,
    inverts_text dialect, inverts_int32 dialect, PortProtocol.inverts_read dialect]

lemma Exec.read_toValue (e : Exec) : Exec.read dialect e.toValue = .valid e := by
  simp [Exec.read, Exec.toValue, record_eq, Fields.need_eq, inverts_list inverts_text dialect]

lemma HttpHeader.read_toValue (h : HttpHeader) : HttpHeader.read dialect h.toValue = .valid h := by
  simp [HttpHeader.read, HttpHeader.toValue, record_eq, Fields.need_eq, Text.ofString_beq,
    inverts_text dialect]

lemma HttpGet.read_toValue (g : HttpGet) : HttpGet.read dialect g.toValue = .valid g := by
  simp [HttpGet.read, HttpGet.toValue, record_eq, Fields.need_eq, Fields.take_eq, Text.ofString_beq,
    inverts_text dialect, inverts_int32 dialect, inverts_list HttpHeader.read_toValue dialect]

lemma TcpSocket.read_toValue (s : TcpSocket) : TcpSocket.read dialect s.toValue = .valid s := by
  simp [TcpSocket.read, TcpSocket.toValue, record_eq, Fields.need_eq, inverts_int32 dialect]

/-- A probe is read back. -/
lemma HealthProbe.read_toValue (p : HealthProbe) :
    HealthProbe.read dialect p.toValue = .valid p := by
  have hexec := inverts_optional Exec.read_toValue (by simp [Exec.toValue, Value.record]) dialect
  have hget :=
    inverts_optional HttpGet.read_toValue (by simp [HttpGet.toValue, Value.record]) dialect
  have htcp :=
    inverts_optional TcpSocket.read_toValue (by simp [TcpSocket.toValue, Value.record]) dialect
  simp [HealthProbe.read, HealthProbe.toValue, record_eq, Fields.take_eq, Text.ofString_beq,
    inverts_int32 dialect, hexec, hget, htcp]

lemma Requirement.read_toValue (name : Text) (r : Requirement) :
    Requirement.read name dialect r.toValue = .valid r := by
  simp [Requirement.read, Requirement.toValue, record_eq, Fields.need_eq, inverts_text dialect]

lemma Path.read_toValue (p : Path) : Path.read dialect p.toValue = .valid p := by
  simp [Path.read, Path.toValue, record_eq, Fields.need_eq, Fields.take_eq, Text.ofString_beq,
    inverts_text dialect, AccessMode.inverts_read dialect, SharingPolicy.inverts_read dialect]

lemma Resources.read_toValue (r : Resources) : Resources.read dialect r.toValue = .valid r := by
  simp [Resources.read, Resources.toValue, record_eq, Fields.take_eq, Text.ofString_beq,
    Requirement.read_toValue dialect, inverts_list Path.read_toValue dialect]

/-- A container is read back. -/
lemma Container.read_toValue (c : Container) : Container.read dialect c.toValue = .valid c := by
  have hprobe :=
    inverts_optional HealthProbe.read_toValue (by simp [HealthProbe.toValue, Value.record]) dialect
  simp [Container.read, Container.toValue, record_eq, Fields.need_eq, Fields.take_eq,
    Text.ofString_beq, inverts_text dialect, Resources.read_toValue dialect,
    inverts_list Env.read_toValue dialect, inverts_list Port.read_toValue dialect, hprobe]

/-- A component is read back from its value. -/
theorem Component.read_toValue (c : Component) : Component.read dialect c.toValue = .valid c := by
  simp [Component.read, Component.toValue, Component.fields, record_eq, Fields.take_eq,
    Text.ofString_beq, inverts_text dialect, inverts_list Parameter.read_toValue dialect,
    inverts_list Container.read_toValue dialect, inverts_list WorkloadSetting.read_toValue dialect]

end

end Schematic
