import Schematic.Proofs.Http.Sending
import Schematic.Proofs.Json.Data

/-!
# What a request holds

The body of a request is data that can be spelled, and what is read from it is made of that data. A
body that gives nothing is answered at once. The names and values of a query have bytes.
-/

namespace Schematic.Http

open Json (HoldsOfSpelled HoldsOfWords)
open FieldReader (Keeps)

variable {p : Json → Prop} {r : Request} {j : Json}

/-! ### Queries -/

lemma isUnicode_queryPair (t : Text) : (queryPair t).1.IsUnicode ∧ (queryPair t).2.IsUnicode := by
  unfold queryPair
  split
  · exact ⟨Utf8.isUnicode_decodeLossy _ _, Utf8.isUnicode_decodeLossy _ _⟩
  · exact ⟨Utf8.isUnicode_decodeLossy _ _, Text.isUnicode_nil⟩

/-- The value of a query has bytes. -/
lemma isUnicode_of_parameter? {query name t : Text} (hquery : r.query = queryPairs query)
    (h : r.parameter? name = some t) : t.IsUnicode := by
  obtain ⟨q, hq, rfl⟩ := Option.map_eq_some_iff.mp h
  have hmem := List.mem_of_mem_filter (List.mem_of_getLast? hq)
  rw [hquery] at hmem
  obtain ⟨u, -, rfl⟩ := List.mem_map.mp hmem
  exact (isUnicode_queryPair u).2

/-! ### Bodies -/

/-- The data in a body can be spelled. -/
lemma every_of_data (hp : HoldsOfSpelled p) (h : r.data = .ok (some j)) : j.Every p := by
  rw [Request.data] at h
  split at h
  · cases h
  · split at h
    · split at h
      · next hread =>
        cases h
        exact Json.every_of_read hp hread
      · cases h
      · cases h
    · cases h
      exact hp.text r.body

/-- Only a map is read as a component. -/
lemma map_of_ofValue {v : Value} {c : Component} (h : Component.ofValue v = .ok c) :
    ∃ es, v = .map es := by
  unfold Component.ofValue at h
  split at h
  · exact ⟨_, rfl⟩
  · cases h

/-- A field for a map holds the map that was there. -/
lemma map_of_mapField {v : Value} {es : List (Value × Value)} (h : mapField .values v = .valid es) :
    v = .map es := by
  unfold mapField at h
  split at h
  · rw [Checked.valid.inj h]
  · cases h

lemma keeps_mapField : mapField.Keeps p fun entries => (Value.map entries).IsPlain p := by
  rintro d _ ⟨j, rfl, hj⟩
  cases j with
  | object es => exact ⟨.object es, rfl, hj⟩
  | _ => exact Checked.gives_fail (Text.isUnicode_ofString _)

/-- The component and the supplied values of a body are made of its data. -/
lemma RenderBody.keeps_read (hp : HoldsOfWords p) :
    RenderBody.read.Keeps p fun b => b.component.IsPlain p ∧ (Value.map b.supplied).IsPlain p := by
  have hnone : (Value.map []).IsPlain p := by
    refine ⟨.object [], rfl, hp.object [] ?_, trivial⟩
    show Text.AreFieldNames []
    decide
  rintro d _ ⟨j, rfl, hj⟩
  cases j with
  | object es =>
    have hfs : Fields.ArePlain p ⟨d, Json.toEntries es⟩ :=
      fun e he => Json.isPlain_of_mem_toEntries hj.2 he
    have hcomponent :
        (Value.map <$> (⟨d, Json.toEntries es⟩ : Fields).need "component" mapField).Gives
          (Value.IsPlain p) :=
      (hfs.need "component" keeps_mapField).map fun _ h => h
    have hsupplied (name : String) :
        ((⟨d, Json.toEntries es⟩ : Fields).take name [] mapField).Gives
          fun entries => (Value.map entries).IsPlain p :=
      hfs.take name hnone keeps_mapField
    simp only [Json.toValue, RenderBody.read]
    refine .seq (R := fun entries => (Value.map entries).IsPlain p)
      (hcomponent.map fun v hv entries hentries => ⟨hv, hentries⟩) ?_
    -- The values come under one of two names.
    split
    · exact hsupplied _
    · exact hsupplied _
  | _ => exact Checked.gives_fail (Text.isUnicode_ofString _)

/-- A body that can not be read as data is refused. -/
lemma sendable?_of_data {response : Response} (h : r.data = .error response) :
    (response.status = 400 ∨ response.status = 422) ∧ response.sendable? = some response := by
  rw [Request.data] at h
  split at h
  · cases h
  · split at h
    · split at h
      · cases h
      · next position _ =>
        cases h
        have hpath : ∀ step ∈ [PathStep.name "body", .index position], step.text.IsUnicode :=
          List.forall_mem_cons.mpr ⟨Text.isUnicode_ofString _,
            List.forall_mem_singleton.mpr (Text.isUnicode_ofInt position)⟩
        have hinput : (Json.object []).Every Json.IsSendable :=
          ⟨⟨fun e he => absurd he List.not_mem_nil, trivial⟩, trivial⟩
        exact ⟨.inr rfl, sendable?_complaint ⟨hpath, Text.isUnicode_ofString _⟩ hinput⟩
      · cases h
        exact ⟨.inl rfl, sendable?_detail_of_isUnicode (Text.isUnicode_ofString _)⟩
    · cases h

/-- Reading a body gives what it holds, or complains of its parts, or there is no data in it. -/
lemma readBody_cases {α : Type} (r : Request) (read : FieldReader α) :
    (∃ j a, r.data = .ok (some j) ∧ read .values j.toValue = .valid a ∧ r.readBody read = .ok a) ∨
      (∃ j ps, r.data = .ok (some j) ∧ read .values j.toValue = .invalid ps ∧
        r.readBody read = .error (.unprocessable (complaints j ps))) ∨
      (∀ j, r.data ≠ .ok (some j)) ∧ ∃ response, r.readBody read = .error response ∧
        (response.status = 400 ∨ response.status = 422) ∧ response.sendable? = some response := by
  unfold Request.readBody
  cases hdata : r.data with
  | error response => exact .inr (.inr ⟨by simp, response, rfl, sendable?_of_data hdata⟩)
  | ok data =>
    cases data with
    | some j =>
      simp only [ok_bind]
      cases hread : read .values j.toValue with
      | valid a => exact .inl ⟨j, a, rfl, hread, rfl⟩
      | invalid ps => exact .inr (.inl ⟨j, ps, rfl, hread, rfl⟩)
    | none =>
      have hpath : ∀ step ∈ [PathStep.name "body"], step.text.IsUnicode :=
        List.forall_mem_singleton.mpr (Text.isUnicode_ofString _)
      have hsent := sendable?_complaint (c := ⟨⟨[.name "body"], .missing⟩, .null⟩)
        ⟨hpath, Text.isUnicode_ofString _⟩ ⟨trivial, trivial⟩
      exact .inr (.inr ⟨by simp, _, rfl, .inr rfl, hsent⟩)

/-! ### Supplied values -/

lemma bindingsOf_toEntries (es : List (Text × Json)) :
    bindingsOf (Json.toEntries es) = es.map fun e => (e.1, e.2.toValue) := by
  induction es with
  | nil => rfl
  | cons e es ih => exact congrArg _ ih

/-- The values that a body supplies are made of its data. -/
lemma isPlain_of_mem_bindingsOf {entries : List (Value × Value)}
    (h : (Value.map entries).IsPlain p) :
    ∀ b ∈ bindingsOf entries, b.2.IsPlain p := by
  obtain ⟨j, hj, hp⟩ := h
  cases j with
  | object es =>
    cases hj
    rw [bindingsOf_toEntries]
    exact List.forall_mem_map.mpr fun e he => ⟨e.2, rfl, Json.everyEntry_iff.mp hp.2 e he⟩
  | _ => cases hj

/-- The names of bindings are texts of the data. -/
lemma isUnicode_of_mem_bindingsOf {entries : List (Value × Value)}
    (h : (Value.map entries).IsPlain Json.IsUnicode) : ∀ b ∈ bindingsOf entries, b.1.IsUnicode := by
  obtain ⟨j, hj, hp⟩ := h
  cases j with
  | object es =>
    cases hj
    rw [bindingsOf_toEntries]
    exact List.forall_mem_map.mpr hp.1
  | _ => cases hj

end Schematic.Http
