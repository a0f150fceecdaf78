import Mathlib.Tactic.Lemma
import Schematic.Component.Record

/-!
# Records are read alike in all dialects

The dialect of a value decides how the messages about its collections are worded, and nothing else.
So what a reader makes of a value in one dialect is what it makes of the value in another one, with
the problems reworded.

Every way of putting readers together commutes with the change of the wording.
-/

namespace Schematic

/-! ### Wording -/

def Cause.inDialect (d : Dialect) : Cause → Cause
  | .notList _ => .notList d
  | .notRecord _ name => .notRecord d name
  | c => c

def Problem.inDialect (d : Dialect) (p : Problem) : Problem :=
  { p with cause := p.cause.inDialect d }

/-- The dialect has no part in what a problem is and where it is. -/
lemma Problem.code_inDialect (d : Dialect) (p : Problem) :
    (p.inDialect d).path = p.path ∧ (p.inDialect d).cause.code = p.cause.code := by
  refine ⟨rfl, ?_⟩
  rw [inDialect]
  cases p.cause <;> rfl

namespace Checked

variable {α β : Type}

/-- A checked value with its problems worded in a dialect. -/
def inDialect (d : Dialect) : Checked α → Checked α
  | .valid a => .valid a
  | .invalid ps => .invalid (ps.map (·.inDialect d))

lemma inDialect_eq_valid_iff {d : Dialect} {r : Checked α} {a : α} :
    r.inDialect d = .valid a ↔ r = .valid a := by
  cases r <;> simp [inDialect]

variable (d : Dialect)

@[simp]
lemma inDialect_valid (a : α) : (valid a).inDialect d = valid a := rfl

@[simp]
lemma inDialect_fail (c : Cause) : (fail c : Checked α).inDialect d = fail (c.inDialect d) := rfl

@[simp]
lemma inDialect_map (f : α → β) (r : Checked α) : (f <$> r).inDialect d = f <$> r.inDialect d := by
  cases r <;> rfl

@[simp]
lemma inDialect_seq (f : Checked (α → β)) (r : Checked α) :
    (f <*> r).inDialect d = f.inDialect d <*> r.inDialect d := by
  cases f <;> cases r <;> simp [Seq.seq, apply, inDialect]

/-- A dialect has no part in the path of a problem. -/
@[simp]
lemma inDialect_under (step : PathStep) (r : Checked α) :
    (r.under step).inDialect d = (r.inDialect d).under step := by
  cases r with
  | valid a => rfl
  | invalid ps =>
    simp only [under, inDialect, List.map_map]
    rfl

/-- A list in another dialect is a list of items in it. -/
lemma inDialect_list (rs : List (Checked α)) :
    (list rs).inDialect d = list (rs.map (·.inDialect d)) := by
  induction rs with
  | nil => rfl
  | cons r rs ih =>
    have hseq := inDialect_seq d (List.cons <$> r) (list rs)
    rw [inDialect_map, ih] at hseq
    exact hseq

end Checked

/-! ### Readers -/

namespace FieldReader

/-- What is read in one dialect is what is read in another one, worded in the dialect. -/
def Translates {α : Type} (read : FieldReader α) : Prop :=
  ∀ d d' v, (read d v).inDialect d' = read d' v

variable {α : Type} {read : FieldReader α}

lemma translates_any : any.Translates := fun _ _ _ => rfl

/-- A text is read alike in all dialects. -/
lemma translates_text : text.Translates := by
  intro d d' v
  unfold text
  split
  · rfl
  · split <;> rfl
  · rfl

/-- An integer is read alike in all dialects. -/
lemma translates_int32 : int32.Translates := by
  intro d d' v
  unfold int32
  split
  · split
    · rfl
    · split <;> rfl
  · rfl

/-- A word for a truth value is the same in all dialects. -/
lemma inDialect_truthOfWord (d : Dialect) (t : Text) :
    (truthOfWord t).inDialect d = truthOfWord t := by
  unfold truthOfWord
  split
  · rfl
  · split <;> rfl

/-- A number for a truth value is the same in all dialects. -/
lemma inDialect_truthOfInt (d : Dialect) (n : Int) : (truthOfInt n).inDialect d = truthOfInt n := by
  unfold truthOfInt
  split
  · rfl
  · split
    · rfl
    · split <;> rfl

/-- A truth value is read alike in all dialects. -/
lemma translates_bool : bool.Translates := by
  intro d d' v
  unfold bool
  split
  · rfl
  · exact inDialect_truthOfWord d' _
  · split
    · exact inDialect_truthOfWord d' _
    · rfl
  · exact inDialect_truthOfInt d' _
  · split
    · exact inDialect_truthOfInt d' _
    · rfl
  · rfl

/-- A choice is read alike in all dialects. -/
lemma translates_choice (all : List α) (token : α → Text) : (choice all token).Translates := by
  intro d d' v
  have htext := translates_text d d' v
  unfold choice
  rw [← htext]
  cases text d v with
  | valid t =>
    simp only [Checked.inDialect_valid]
    split
    · rfl
    · split <;> rfl
  | invalid ps => rfl

/-- What may be missing is read alike if what is there is. -/
lemma translates_optional (h : read.Translates) : (optional read).Translates := by
  intro d d' v
  unfold optional
  split
  · rfl
  · rw [← h d d' v]
    exact Checked.inDialect_map d' some _

/-- A list is read alike if its items are. -/
lemma translates_list (h : read.Translates) : (list read).Translates := by
  intro d d' v
  unfold list
  split
  · simp [Checked.inDialect_list, Function.comp_def, h d d']
  · rfl

end FieldReader

/-! ### Fields -/

namespace Fields

variable {α : Type} {read : FieldReader α} (d : Dialect) (fs : Fields) (name : Text)

/-- A field that is needed is read alike if its value is. -/
lemma inDialect_need (h : read.Translates) :
    (fs.need name read).inDialect d = need { fs with dialect := d } name read := by
  simp only [need]
  cases Value.get? name fs.entries with
  | none => rfl
  | some v => rw [Checked.inDialect_under, h fs.dialect d]

/-- A field with a default is read alike if its value is. -/
lemma inDialect_take (h : read.Translates) (default : α) :
    (fs.take name default read).inDialect d = take { fs with dialect := d } name default read := by
  simp only [take]
  cases Value.get? name fs.entries with
  | none => rfl
  | some v => rw [Checked.inDialect_under, h fs.dialect d]

end Fields

/-- A record is read alike if its fields are. -/
lemma FieldReader.translates_record {α : Type} {name : Text} {read : Fields → Checked α}
    (h : ∀ d fs, (read fs).inDialect d = read { fs with dialect := d }) :
    (record name read).Translates := by
  intro d d' v
  unfold record
  split
  · exact h d' _
  · rfl

open FieldReader Fields

/-! ### Parts of a component -/

lemma translates_optional_text : (optional text).Translates := translates_optional translates_text

lemma ParameterType.translates_read : ParameterType.read.Translates := translates_choice _ _

lemma AccessMode.translates_read : AccessMode.read.Translates := translates_choice _ _

lemma SharingPolicy.translates_read : SharingPolicy.read.Translates := translates_choice _ _

lemma PortProtocol.translates_read : PortProtocol.read.Translates := translates_choice _ _

lemma Parameter.translates_read : Parameter.read.Translates :=
  translates_record fun d fs => by
    simp [inDialect_need, inDialect_take, translates_text, translates_optional_text,
      ParameterType.translates_read, translates_bool, translates_any]

lemma WorkloadSetting.translates_read : WorkloadSetting.read.Translates :=
  translates_record fun d fs => by
    simp [inDialect_need, inDialect_take, translates_text, translates_optional_text,
      ParameterType.translates_read, translates_bool, translates_any]

lemma Env.translates_read : Env.read.Translates :=
  translates_record fun d fs => by
    simp [inDialect_need, inDialect_take, translates_text, translates_optional_text]

lemma Port.translates_read : Port.read.Translates :=
  translates_record fun d fs => by
    simp [inDialect_need, inDialect_take, translates_text, translates_int32,
      PortProtocol.translates_read]

lemma Exec.translates_read : Exec.read.Translates :=
  translates_record fun d fs => by
    simp [inDialect_need, translates_list translates_text]

lemma HttpHeader.translates_read : HttpHeader.read.Translates :=
  translates_record fun d fs => by
    simp [inDialect_need, translates_text]

lemma HttpGet.translates_read : HttpGet.read.Translates :=
  translates_record fun d fs => by
    simp [inDialect_need, inDialect_take, translates_text, translates_int32,
      translates_list HttpHeader.translates_read]

lemma TcpSocket.translates_read : TcpSocket.read.Translates :=
  translates_record fun d fs => by
    simp [inDialect_need, translates_int32]

lemma HealthProbe.translates_read : HealthProbe.read.Translates :=
  translates_record fun d fs => by
    simp [inDialect_take, translates_int32, translates_optional Exec.translates_read,
      translates_optional HttpGet.translates_read, translates_optional TcpSocket.translates_read]

lemma Requirement.translates_read (name : Text) : (Requirement.read name).Translates :=
  translates_record fun d fs => by
    simp [inDialect_need, translates_text]

lemma Path.translates_read : Path.read.Translates :=
  translates_record fun d fs => by
    simp [inDialect_need, inDialect_take, translates_text, AccessMode.translates_read,
      SharingPolicy.translates_read]

lemma Resources.translates_read : Resources.read.Translates :=
  translates_record fun d fs => by
    simp [inDialect_take, Requirement.translates_read, translates_list Path.translates_read]

lemma Container.translates_read : Container.read.Translates :=
  translates_record fun d fs => by
    simp [inDialect_need, inDialect_take, translates_text, Resources.translates_read,
      translates_list Env.translates_read, translates_list Port.translates_read,
      translates_optional HealthProbe.translates_read]

/-- A component is read alike in all dialects. -/
theorem Component.translates_read : Component.read.Translates :=
  translates_record fun d fs => by
    simp [inDialect_take, translates_text, translates_list Parameter.translates_read,
      translates_list Container.translates_read, translates_list WorkloadSetting.translates_read]

end Schematic
