import Schematic.Proofs.Component.Agreement
import Schematic.Proofs.Component.Resolution
import Schematic.Proofs.Component.Violation

/-!
# Reports on documents

A document that holds a component is told from one that does not by the violations of the schema,
and the error of the latter is a report on all of them. What is an integer in a component was
written as this integer in its document.
-/

namespace Schematic

open Schema (Field)
open Value (ofInt32)

/-! ### Integers in their places -/

/-- The part of a value at a path. -/
def Value.at? : List PathStep → Value → Option Value
  | [], v => some v
  | .name t :: path, .map es => (get? t es).bind (at? path)
  | .index (.ofNat i) :: path, v => ((FieldReader.items? v).bind (·[i]?)).bind (at? path)
  | _, _ => none

lemma Value.at?_index (i : Nat) (path : List PathStep) (v : Value) :
    at? (.index i :: path) v = ((FieldReader.items? v).bind (·[i]?)).bind (at? path) := rfl

/-- Null has no parts. -/
lemma Value.at?_null (step : PathStep) (path : List PathStep) :
    at? (step :: path) .null = none := by
  rcases step with t | (i | i)
  · rfl
  · rfl
  · rfl

namespace Schema

/-- The schema has an integer of 32 bits at a path. -/
inductive HasInt32At : Schema → List PathStep → Prop
  | here : HasInt32At int32 []
  /-- In what may also be null. -/
  | optional {s : Schema} {step : PathStep} {path : List PathStep} :
      HasInt32At s (step :: path) → HasInt32At (.optional s) (step :: path)
  | item {s : Schema} {path : List PathStep} (i : Nat) : HasInt32At s path →
    HasInt32At (.list s) (.index i :: path)
  | field {name : Text} {fields : List Field} {f : Field} {path : List PathStep} :
      f ∈ fields → HasInt32At f.schema path →
        HasInt32At (.record name fields) (.name f.name :: path)

variable {d : Dialect} {v w x : Value} {s : Schema}

/-- An integer that is read is the one that was there. -/
lemma int32_of_read (h : int32.read d v = .valid w) :
    ∃ n : Int32, v = ofInt32 n ∧ w = ofInt32 n := by
  rcases Leaf.decides_int32 d v with ⟨⟨n, rfl, hlow, hhigh⟩, -⟩ | ⟨-, hfail⟩
  · have hn : (Value.int n) = ofInt32 (Int32.ofInt n) := by
      rw [ofInt32, Int32.toInt_ofInt_of_le hlow hhigh]
    rw [hn, FieldReader.follows_int32.read_write FieldReader.inverts_int32] at h
    exact ⟨_, hn, (Checked.valid.inj h).symm⟩
  · cases hfail.symm.trans h

/-- An item of a list is read in its place. -/
lemma exists_read_item {vs : List Value} {i : Nat} (hv : FieldReader.items? v = some vs)
    (hread : s.list.read d v = .valid w) (hx : vs[i]? = some x) :
    ∃ ws y, w = .list ws ∧ ws[i]? = some y ∧ s.read d x = .valid y := by
  simp only [read, hv, Checked.map_eq_valid_iff, Checked.list_eq_valid_iff] at hread
  obtain ⟨ws, hws, rfl⟩ := hread
  have hitem : (ws.map Checked.valid)[i]? = some ((s.read d x).under (.index i)) := by
    rw [← hws, List.getElem?_map, List.getElem?_zipIdx, hx]
    simp
  rw [List.getElem?_map, Option.map_eq_some_iff] at hitem
  obtain ⟨y, hy, hread⟩ := hitem
  exact ⟨ws, y, rfl, hy, Checked.under_eq_valid_iff.mp hread.symm⟩

/-- The value of a field is read in its place. -/
lemma exists_read_field {name : Text} {fields : List Field} {f : Field} {es : List (Value × Value)}
    (hnames : (fields.map Field.name).Nodup) (hf : f ∈ fields)
    (hread : (record name fields).read d (.map es) = .valid w)
    (hx : Value.get? f.name es = some x) :
    ∃ fs y, w = .map fs ∧ Value.get? f.name fs = some y ∧ f.schema.read d x = .valid y := by
  rw [read, Checked.map_eq_valid_iff] at hread
  obtain ⟨fs, hfs, rfl⟩ := hread
  obtain ⟨y, hy, hget⟩ := get?_of_readFields hnames hfs hf
  rw [Field.read_eq, hx] at hy
  exact ⟨fs, y, rfl, hget, Checked.under_eq_valid_iff.mp hy⟩

/-- An integer is read as what it is in its place. -/
theorem int32_at (hs : s.IsWellFormed) {path : List PathStep} (h : s.HasInt32At path)
    (hread : s.read d v = .valid w) (hat : v.at? path = some x) :
    ∃ n : Int32, x = .int n.toInt ∧ w.at? path = some x := by
  -- By induction on the place: the reader goes down the path that the schema allows.
  induction h generalizing v w with
  | here =>
    obtain ⟨n, rfl, rfl⟩ := int32_of_read hread
    obtain rfl := Option.some.inj hat
    exact ⟨n, rfl, rfl⟩
  | optional _ ih =>
    cases hs with
    | optional hs =>
      rw [read] at hread
      split at hread
      · -- A null has nothing below it.
        rename_i hnull
        obtain rfl := Value.isNull_iff.mp hnull
        cases (Value.at?_null _ _).symm.trans hat
      · exact ih hs hread hat
  | @item s path i _ ih =>
    cases hs with
    | list hs =>
      rw [Value.at?_index, Option.bind_eq_some_iff] at hat
      obtain ⟨u, hu, hat⟩ := hat
      obtain ⟨vs, hv, hu⟩ := Option.bind_eq_some_iff.mp hu
      obtain ⟨ws, y, rfl, hy, hread⟩ := exists_read_item hv hread hu
      rw [Value.at?_index, FieldReader.items?, Option.bind_some, hy]
      exact ih hs hread hat
  | @field name fields f _ hf _ ih =>
    cases hs with
    | record hnames _ hparts =>
      cases v with
      | map es =>
        rw [Value.at?, Option.bind_eq_some_iff] at hat
        obtain ⟨u, hu, hat⟩ := hat
        obtain ⟨fs, y, rfl, hy, hread⟩ := exists_read_field hnames hf hread hu
        rw [Value.at?, hy]
        exact ih (hparts f hf) hread hat
      | _ => cases hread

end Schema

/-! ### Components and their errors -/

namespace Component

variable {es : List (Value × Value)}

/-- A document with entries gives a component exactly if it gives something by the schema. -/
lemma exists_ofValue_iff :
    (∃ c, ofValue (.map es) = .ok c) ↔ ∃ w, schema.read .values (.map es) = .valid w := by
  simp only [ofValue_eq_ok_iff, ← follows .values, Checked.map_eq_valid_iff]
  constructor
  · rintro ⟨c, hc⟩
    exact ⟨_, c, hc, rfl⟩
  · rintro ⟨_, c, hc, -⟩
    exact ⟨c, hc⟩

/-- The problems of a document are those by the schema. -/
lemma problems_read (d : Dialect) (v : Value) :
    (Component.read d v).problems = schema.problems d v := by
  rw [← Checked.problems_map toValue, follows d]
  rfl

/-- An error tells all problems. -/
lemma message_of_ofValue {e : ReadError} (h : ofValue (.map es) = .error e) :
    e.message = "Invalid component: " ++
      Text.join "; " ((schema.problems .values (.map es)).map Problem.text) := by
  rw [← problems_read]
  rw [ofValue] at h
  cases hread : Component.read .values (.map es) with
  | valid c =>
    rw [hread] at h
    cases h
  | invalid ps =>
    rw [hread] at h
    cases h
    rfl

/-- A document with entries is accepted exactly if the schema of components is not violated, and
otherwise refused by a report on all violations. The problems of a record are those of its fields,
one field after another and under its name. In a component that was accepted stand the integers of
its document. -/
theorem ofValue_reports (es : List (Value × Value)) :
    let ps := schema.problems .values (.map es)
    ((∃ c, ofValue (.map es) = .ok c) ↔
        ∀ path cause, ¬ schema.Violated .values (.map es) path cause) ∧
      (∀ e, ofValue (.map es) = .error e → schema.IsReport .values (.map es) ps ∧
        e.message = "Invalid component: " ++ Text.join "; " (ps.map Problem.text)) ∧
      (∀ name fields fs, (Schema.record name fields).problems .values (.map fs)
        = fields.flatMap (Field.problems .values fs)) ∧
      ∀ c, ofValue (.map es) = .ok c → ∀ path w, schema.HasInt32At path →
        (Value.map es).at? path = some w →
        ∃ n : Int32, w = .int n.toInt ∧ c.toValue.at? path = some w := by
  intro ps
  refine ⟨?_, ?_, ?_, ?_⟩
  · rw [exists_ofValue_iff]
    exact Schema.exists_read_eq_valid_iff .values (.map es) isWellFormed
  · intro e he
    exact ⟨Schema.isReport_problems .values (.map es) isWellFormed, message_of_ofValue he⟩
  · intro name fields fs
    exact Schema.problems_record .values fs name fields
  · intro c hc path w hpath hat
    exact Schema.int32_at isWellFormed hpath (follows.read_valid (ofValue_eq_ok_iff.mp hc)) hat

end Component

/-- A container without a name and an image, whose port has no name either, and a truth value for
its number. -/
example :
    let port := Value.map [(.text "containerPort", .bool true), (.text "protocol", .text "tcp")]
    let container := Value.map [(.text "ports", .list [port])]
    (Component.schema.problems .values (.map [(.text "containers", .list [container])])).map
        Problem.text =
      ["containers.0.name: Field required", "containers.0.image: Field required",
        "containers.0.ports.0.name: Field required",
        "containers.0.ports.0.containerPort: Input should be a valid integer",
        "containers.0.ports.0.protocol: Input should be 'TCP', 'UDP' or 'SCTP'"] := by
  decide +kernel

end Schematic
