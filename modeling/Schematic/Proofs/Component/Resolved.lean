import Schematic.Pod.Manifest
import Schematic.Proofs.Component.Resolution

/-!
# Resolved components

Whatever the values are, a component that is resolved is the component that was given, with the
effective values in the place of its references. So nothing in it refers to a parameter any more,
and to resolve it again, against any values that it does not refuse, changes nothing.
-/

namespace Schematic

/-- Where a value has a text in an environment variable, its rendering is that text. -/
lemma Value.rendering_eq {v : Value} {t : Option Text} (h : v.envText = .ok t) :
    t = v.rendering := by
  have hwritten (h : (do let j ← v.literal; .ok (some (Json.render Json.ascii j))) = .ok t) :
      t = v.literal.toOption.map (Json.render Json.ascii) := by
    obtain ⟨j, hj, ht⟩ := exists_of_bind_eq_ok h
    rw [hj, ← Except.ok.inj ht]
    rfl
  cases v with
  | null | text t => exact (Except.ok.inj h).symm
  | bool b =>
    rw [hwritten h, literal]
    cases b <;> rfl
  | _ => exact hwritten h

/-! ### What is resolved -/

section

variable {c r : Component} {supplied : Bindings}

/-- A reference that is found has the effective value of its name. -/
lemma Owner.lookup_eq_of_ok {owner : Owner} {reference : Option Text} {name : Text} {v : Value}
    (hname : reference? reference = some name)
    (h : owner.lookup (c.bindings supplied) name = .ok v) :
    v = c.effectiveValue supplied name := by
  rw [lookup_bindings c supplied owner hname] at h
  cases hfault : c.referenceFault? owner reference <;> rw [hfault] at h <;> cases h
  rfl

/-- A resolved variable has the value of its reference. -/
lemma Env.resolve_eq_of_ok {container : Text} {e e' : Env}
    (h : e.resolve (c.bindings supplied) container = .ok e') :
    e' = e.withValues (c.effectiveValue supplied) := by
  unfold resolve at h
  unfold withValues
  cases hname : reference? e.fromParam with
  | none =>
    rw [hname] at h
    exact (Except.ok.inj h).symm
  | some name =>
    rw [hname] at h
    obtain ⟨v, hv, h⟩ := exists_of_bind_eq_ok h
    obtain ⟨t, ht, h⟩ := exists_of_bind_eq_ok h
    obtain rfl := Owner.lookup_eq_of_ok hname hv
    cases htext : (c.effectiveValue supplied name).envText with
    | error f => simp [htext, Except.mapError] at ht
    | ok u =>
      obtain rfl : u = t := by simpa [htext, Except.mapError] using ht
      rw [← Except.ok.inj h, Value.rendering_eq htext]

lemma Container.resolve_eq_of_ok {k k' : Container} (h : k.resolve (c.bindings supplied) = .ok k') :
    k' = k.withValues (c.effectiveValue supplied) := by
  obtain ⟨env, henv, h⟩ := exists_of_bind_eq_ok h
  rw [← Except.ok.inj h, mapM_eq_map_of_ok (fun _ _ => Env.resolve_eq_of_ok) henv]
  rfl

/-- A resolved setting has the value of its reference. -/
lemma WorkloadSetting.resolve_eq_of_ok {s s' : WorkloadSetting}
    (h : s.resolve (c.bindings supplied) = .ok s') :
    s' = s.withValues (c.effectiveValue supplied) := by
  rw [resolve_bindings] at h
  cases hfault : c.settingFault? s <;> rw [hfault] at h <;> cases h
  rfl

/-- Effective values that are accepted are those of the declared names. -/
lemma Component.effectiveValues_eq_of_ok {values : Bindings}
    (h : c.effectiveValues supplied = .ok values) :
    values = c.bindings supplied := by
  rw [effectiveValues_eq] at h
  cases hfault : c.valueFault? supplied <;> rw [hfault] at h <;> cases h
  rfl

/-- A resolved component is the component with its effective values in the place of references. -/
lemma Component.resolve_eq_of_ok (h : c.resolve supplied = .ok r) :
    r = c.withValues (c.effectiveValue supplied) := by
  rw [resolve] at h
  obtain ⟨values, hvalues, h⟩ := exists_of_bind_eq_ok h
  obtain ⟨containers, hcontainers, h⟩ := exists_of_bind_eq_ok h
  obtain ⟨settings, hsettings, h⟩ := exists_of_bind_eq_ok h
  rw [effectiveValues_eq_of_ok (mapError_eq_ok.mp hvalues)] at hcontainers hsettings
  rw [← Except.ok.inj h, mapM_eq_map_of_ok (fun _ _ => Container.resolve_eq_of_ok) hcontainers,
    mapM_eq_map_of_ok (fun _ _ => WorkloadSetting.resolve_eq_of_ok) hsettings]
  rfl

/-- The manifest of a component is that of the resolved component. -/
lemma Component.podManifest_of_resolve (h : c.resolve supplied = .ok r) :
    c.podManifest supplied = .ok r.toPodSpec.manifest := by
  rw [podManifest, h]
  rfl

end

/-! ### Components without references -/

/-- Nothing in a component refers to a parameter. -/
structure Component.IsLiteral (c : Component) : Prop where
  env : ∀ k ∈ c.containers, ∀ e ∈ k.env, reference? e.fromParam = none
  settings : ∀ s ∈ c.workloadSettings, reference? s.fromParam = none

/-- With a value in its place a variable has no reference left. -/
lemma Env.reference?_withValues (values : Text → Value) (e : Env) :
    reference? (e.withValues values).fromParam = none := by
  rw [withValues]
  cases hname : reference? e.fromParam with
  | none => exact hname
  | some name => rfl

/-- With a value in its place a setting has no reference left. -/
lemma WorkloadSetting.reference?_withValues (values : Text → Value) (s : WorkloadSetting) :
    reference? (s.withValues values).fromParam = none := by
  rw [withValues]
  cases hname : reference? s.fromParam with
  | none => exact hname
  | some name => rfl

namespace Component

variable {c r : Component} {supplied : Bindings}

/-- With values in the place of its references a component has none left. -/
lemma isLiteral_withValues (c : Component) (values : Text → Value) :
    (c.withValues values).IsLiteral where
  env := by
    intro k hk e he
    obtain ⟨k, -, rfl⟩ := List.mem_map.mp hk
    obtain ⟨e, -, rfl⟩ := List.mem_map.mp he
    exact e.reference?_withValues values
  settings := by
    intro s hs
    obtain ⟨s, -, rfl⟩ := List.mem_map.mp hs
    exact s.reference?_withValues values

/-- Nothing is put into a component without references. -/
lemma IsLiteral.substitute_eq (h : c.IsLiteral) (values : Bindings) :
    c.substitute values = .ok c := by
  have henv : ∀ k ∈ c.containers, k.resolve values = .ok k := by
    intro k hk
    have hself : k.env.mapM (Env.resolve values k.name) = .ok k.env := by
      apply mapM_eq_self
      intro e he
      rw [Env.resolve, h.env k hk e he]
    rw [Container.resolve, hself]
    rfl
  have hsettings : ∀ s ∈ c.workloadSettings, s.resolve values = .ok s := by
    intro s hs
    rw [WorkloadSetting.resolve, h.settings s hs]
  rw [substitute, mapM_eq_self henv, mapM_eq_self hsettings]
  rfl

/-- What a component takes as values depends on its parameters only. -/
lemma effectiveValues_congr {d : Component} (h : d.parameters = c.parameters)
    (supplied : Bindings) :
    d.effectiveValues supplied = c.effectiveValues supplied := by
  simp only [effectiveValues, unknownNames, h]

/-- Resolution is final. Against any values that are supplied later, a resolved component is
resolved to itself and has the manifest that it had, as long as its parameters take these values;
otherwise the values are refused for the reason for which they would have been refused before. -/
theorem resolve_again (h : c.resolve supplied = .ok r) (later : Bindings) :
    (∀ values, c.effectiveValues later = .ok values →
      r.resolve later = .ok r ∧
        ∃ m, r.podManifest later = .ok m ∧ c.podManifest supplied = .ok m) ∧
    ∀ e, c.effectiveValues later = .error e → r.resolve later = .error (.parameter e) := by
  have hr : r = c.withValues (c.effectiveValue supplied) := resolve_eq_of_ok h
  have hliteral : r.IsLiteral := hr ▸ c.isLiteral_withValues (c.effectiveValue supplied)
  have hvalues : r.effectiveValues later = c.effectiveValues later := by
    apply effectiveValues_congr
    rw [hr]
    rfl
  constructor
  · intro values hlater
    have hself : r.resolve later = .ok r := by
      rw [resolve, hvalues, hlater]
      exact hliteral.substitute_eq values
    exact ⟨hself, r.toPodSpec.manifest, podManifest_of_resolve hself, podManifest_of_resolve h⟩
  · intro e hlater
    rw [resolve, hvalues, hlater]
    rfl

/-- A component with references of every kind: beside a literal value, with an empty name, and of a
setting. -/
def overlaid : Component where
  parameters := [{ name := "debug", type := .boolean, required := true }]
  containers := [{ name := "web", image := "nginx", env := [
    { name := "DEBUG", value := some "old", fromParam := some "debug" },
    { name := "EMPTY", value := some "kept", fromParam := some "" }] }]
  workloadSettings := [{ name := "verbose", type := .boolean, fromParam := some "debug" }]

/-- What was resolved with one truth value stays as it is when the other one is supplied. -/
theorem resolve_again_overlaid :
    let r : Component := { overlaid with
      containers := [{ name := "web", image := "nginx", env := [
        { name := "DEBUG", value := some "true" },
        { name := "EMPTY", value := some "kept", fromParam := some "" }] }]
      workloadSettings := [{ name := "verbose", type := .boolean, default := .bool true }] }
    overlaid.resolve [("debug", .bool true)] = .ok r ∧
      overlaid.effectiveValues [("debug", .bool false)] = .ok [("debug", .bool false)] ∧
      r.resolve [("debug", .bool false)] = .ok r ∧
      ∃ m, r.podManifest [("debug", .bool false)] = .ok m ∧
        overlaid.podManifest [("debug", .bool true)] = .ok m := by
  intro r
  have hvalues (b : Bool) : overlaid.effectiveValues [("debug", .bool b)]
      = .ok [("debug", .bool b)] := by
    have hknown : overlaid.unknownNames [("debug", .bool b)] = [] := by
      simp [unknownNames, overlaid]
    rw [effectiveValues, hknown]
    rfl
  have hresolve : overlaid.resolve [("debug", .bool true)] = .ok r := by
    rw [resolve, hvalues]
    rfl
  obtain ⟨hself, hmanifest⟩ := (resolve_again hresolve [("debug", .bool false)]).1 _ (hvalues false)
  exact ⟨hresolve, hvalues false, hself, hmanifest⟩

end Component

end Schematic
