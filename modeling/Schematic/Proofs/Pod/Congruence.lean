import Mathlib.Data.List.Forall2
import Schematic.Proofs.Component.Resolved
import Schematic.Proofs.Pod.Manifest
import Schematic.Proofs.Value.Literal

/-!
# Manifests of components that are the same

Components that are the same differ in the defaults of their parameters only: numbers and truth
values may have another type, and entries of maps another order. Resolution looks at little of a
default: whether it is null, whether it has a literal, and what its literal is. All but the last
agree, so that resolution fails for both components or for none, and where it succeeds, the
manifests differ in the literals alone.
-/

namespace Schematic

/-! ### Failures -/

/-- The fault that an error reports, if it does not come from a literal. -/
def ResolutionError.fault? : ResolutionError → Option ParameterError
  | .parameter e => some e
  | .literal _ => none

section

variable {α β : Type}

/-- How a resolution fails, if it does. -/
def failure? : Except ResolutionError α → Option (Option ParameterError)
  | .ok _ => none
  | .error e => some e.fault?

lemma failure?_eq_none_iff {r : Except ResolutionError α} : failure? r = none ↔ ∃ a, r = .ok a := by
  cases r <;> simp [failure?]

lemma failure?_eq_parameter_iff {r : Except ResolutionError α} {e : ParameterError} :
    failure? r = some (some e) ↔ r = .error (.parameter e) := by
  cases r with
  | ok a => simp [failure?]
  | error e => cases e <;> simp [failure?, ResolutionError.fault?]

/-- Of two steps the first one fails first. -/
lemma failure?_bind (r : Except ResolutionError α) {f : α → Except ResolutionError β}
    {next : Option (Option ParameterError)} (h : ∀ a, failure? (f a) = next) :
    failure? (r >>= f) = (failure? r).or next := by
  cases r with
  | ok a => exact h a
  | error e => rfl

lemma failure?_bind_ok (r : Except ResolutionError α) (f : α → β) :
    failure? (r >>= fun a => .ok (f a)) = failure? r :=
  (failure?_bind (f := fun a => .ok (f a)) r fun _ => rfl).trans Option.or_none

/-- The first failure among the elements is the failure of the list. -/
lemma failure?_mapM (f : α → Except ResolutionError β) (as : List α) :
    failure? (as.mapM f) = as.findSome? fun a => failure? (f a) := by
  induction as with
  | nil => rfl
  | cons a as ih =>
    rw [List.mapM_cons, List.findSome?_cons, ← ih]
    cases f a with
    | error e => rfl
    | ok b => cases as.mapM f <;> rfl

end

/-! ### Literals in environment variables -/

/-- A value is written for the environment if it has a literal. -/
lemma Value.envText_isOk_iff {v : Value} : (∃ t, v.envText = .ok t) ↔ v.HasLiteral := by
  have hwritten : (∃ t : Option Text, (do let j ← v.literal; .ok (some (Json.render Json.ascii j)))
      = .ok t) ↔ v.HasLiteral := by
    rw [HasLiteral]
    cases v.literal <;> simp
  cases v with
  | null | text t => simp [envText, HasLiteral, literal]
  | _ => exact hwritten

/-- Values that have literals alike fail alike. -/
lemma Value.failure?_envText {v w : Value} (h : v.HasLiteral ↔ w.HasLiteral) :
    failure? (v.envText.mapError .literal) = failure? (w.envText.mapError .literal) := by
  rw [← Value.envText_isOk_iff, ← Value.envText_isOk_iff] at h
  cases hv : v.envText with
  | ok t =>
    obtain ⟨u, hw⟩ := h.mp ⟨t, hv⟩
    rw [hw]
    rfl
  | error e =>
    cases hw : w.envText with
    | ok u =>
      obtain ⟨t, ht⟩ := h.mpr ⟨u, hw⟩
      rw [hv] at ht
      cases ht
    | error f => rfl

/-- A manifest is that of the containers with effective values in the place of references. -/
lemma Component.manifest_eq_of_ok {c : Component} {supplied : Bindings} {m : List (Text × Json)}
    (h : c.podManifest supplied = .ok m) :
    m = (c.withValues (c.effectiveValue supplied)).toPodSpec.manifest := by
  obtain ⟨resolved, hresolved, hm⟩ := exists_of_bind_eq_ok h
  rw [← Except.ok.inj hm, resolve_eq_of_ok hresolved]

/-! ### Two components -/

lemma pairwiseSame_iff {α : Type} {same : α → α → Bool} {as bs : List α} :
    pairwiseSame same as bs = true ↔ List.Forall₂ (fun a b => same a b = true) as bs := by
  induction as generalizing bs with
  | nil => cases bs <;> simp [pairwiseSame]
  | cons a as ih => cases bs <;> simp [pairwiseSame, ih]

lemma Parameter.same_iff {p q : Parameter} :
    p.same q = true ↔ p.name = q.name ∧ p.description = q.description ∧ p.type = q.type ∧
      p.required = q.required ∧ p.default.same q.default = true := by
  simp [same, and_assoc]

lemma Value.isNull_eq_of_same {v w : Value} (h : v.same w = true) : v.isNull = w.isNull := by
  have hnull (v : Value) : v.isNull = true ↔ v.essence? = some .null := by
    cases v <;> simp [isNull, essence?]
  rw [Bool.eq_iff_iff, hnull, hnull, essence?_eq_of_same h]

/-- The parameters that a list keeps are the same if all are. -/
lemma Parameter.forall₂_firsts {ps qs : List Parameter}
    (h : List.Forall₂ (fun p q => p.same q = true) ps qs) :
    List.Forall₂ (fun p q => p.same q = true) (firsts ps) (firsts qs) := by
  induction h with
  | nil => exact .nil
  | cons hpq _ ih =>
    refine .cons hpq (List.rel_filter ?_ ih)
    intro p q hsame
    simp only [(same_iff.mp hpq).1, (same_iff.mp hsame).1]

/-- A name is found in both lists of parameters or in none. -/
lemma Parameter.find?_of_same (name : Text) {ps qs : List Parameter}
    (h : List.Forall₂ (fun p q => p.same q = true) ps qs) :
    (ps.find? (·.name == name) = none ∧ qs.find? (·.name == name) = none) ∨
      ∃ p q, ps.find? (·.name == name) = some p ∧ qs.find? (·.name == name) = some q ∧
        p.same q = true := by
  induction h with
  | nil => exact .inl ⟨rfl, rfl⟩
  | @cons p q _ _ hpq _ ih =>
    rw [List.find?_cons, List.find?_cons, (same_iff.mp hpq).1]
    split
    · exact .inr ⟨p, q, rfl, rfl, hpq⟩
    · exact ih

lemma Parameter.fault?_eq_of_same {supplied : Bindings} {p q : Parameter} (h : p.same q = true) :
    p.fault? supplied = q.fault? supplied := by
  obtain ⟨hname, -, htype, hrequired, hdefault⟩ := same_iff.mp h
  rw [fault?, fault?, hname, htype, hrequired, Value.isNull_eq_of_same hdefault]

/-- Parameters that are the same are at fault alike. -/
lemma Parameter.findSome?_fault?_of_same (supplied : Bindings) {ps qs : List Parameter}
    (h : List.Forall₂ (fun p q => p.same q = true) ps qs) :
    ps.findSome? (fault? supplied) = qs.findSome? (fault? supplied) := by
  induction h with
  | nil => rfl
  | cons hpq _ ih => rw [List.findSome?_cons, List.findSome?_cons, fault?_eq_of_same hpq, ih]

section

variable {c d : Component} {supplied : Bindings}

lemma Component.forall₂_of_same (h : c.same d = true) :
    List.Forall₂ (fun p q => p.same q = true) c.parameters d.parameters := by
  simp only [same, Bool.and_eq_true] at h
  exact pairwiseSame_iff.mp h.1.1.2

lemma Component.containers_eq_of_same (h : c.same d = true) : c.containers = d.containers := by
  simp only [same, Bool.and_eq_true, beq_iff_eq] at h
  exact h.1.2

/-- A name has declarations that are the same in both components, or it has none. -/
lemma Component.declaration?_of_same (h : c.same d = true) (name : Text) :
    (c.declaration? name = none ∧ d.declaration? name = none) ∨
      ∃ p q, c.declaration? name = some p ∧ d.declaration? name = some q ∧ p.same q = true :=
  Parameter.find?_of_same name (forall₂_of_same h)

/-- Components that are the same declare the same names. -/
lemma Component.isSome_declaration?_of_same (h : c.same d = true) (name : Text) :
    (c.declaration? name).isSome = (d.declaration? name).isSome := by
  rcases declaration?_of_same h name with ⟨hc, hd⟩ | ⟨p, q, hc, hd, -⟩
  · rw [hc, hd]
  · rw [hc, hd]
    rfl

/-- Components that are the same have the same effective values. -/
lemma Component.effectiveValue_of_same (h : c.same d = true) (name : Text) :
    (c.effectiveValue supplied name).same (d.effectiveValue supplied name) = true := by
  unfold effectiveValue
  cases supplied.value? name with
  | some v => exact Value.same_refl v
  | none =>
    rcases declaration?_of_same h name with ⟨hc, hd⟩ | ⟨p, q, hc, hd, hpq⟩
    · rw [hc, hd]
      exact Value.same_refl _
    · rw [hc, hd]
      exact (Parameter.same_iff.mp hpq).2.2.2.2

/-- Components that are the same have literals for the same names. -/
lemma Component.hasLiteral_effectiveValue_iff (h : c.same d = true)
    (honce : ∀ p ∈ c.parameters, p.default.BindsOnce) (name : Text) :
    (c.effectiveValue supplied name).HasLiteral ↔ (d.effectiveValue supplied name).HasLiteral := by
  have hsame : (c.effectiveValue supplied name).same (d.effectiveValue supplied name) = true :=
    effectiveValue_of_same h name
  revert hsame
  unfold effectiveValue
  cases supplied.value? name with
  | some v => exact fun _ => Iff.rfl
  | none =>
    refine Value.hasLiteral_iff_of_same _ _ ?_
    cases hp : c.declaration? name with
    | none => trivial
    | some p => exact honce p (List.mem_of_find?_eq_some hp)

/-- Components that are the same refuse the same values. -/
lemma Component.valueFault?_eq_of_same (h : c.same d = true) :
    c.valueFault? supplied = d.valueFault? supplied := by
  have hnames : c.unknownNames supplied = d.unknownNames supplied := by
    have hany (name : Text) : (c.parameters.any (·.name == name))
        = d.parameters.any (·.name == name) := by
      rw [← List.isSome_find?, ← List.isSome_find?]
      exact isSome_declaration?_of_same h name
    simp only [unknownNames, hany]
  have hfaults :=
    Parameter.findSome?_fault?_of_same supplied (Parameter.forall₂_firsts (forall₂_of_same h))
  rw [valueFault?, valueFault?, hfaults, unknownFault?, unknownFault?, hnames]

lemma Component.referenceFault?_eq_of_same (h : c.same d = true) (owner : Owner)
    (reference : Option Text) :
    c.referenceFault? owner reference = d.referenceFault? owner reference := by
  simp only [referenceFault?, isSome_declaration?_of_same h]

/-! ### The same failures -/

section

variable (h : c.same d = true) (honce : ∀ p ∈ c.parameters, p.default.BindsOnce)
include h honce

/-- A variable fails alike in components that are the same. -/
lemma Env.failure?_resolve_eq (container : Text) (e : Env) :
    failure? (e.resolve (c.bindings supplied) container)
      = failure? (e.resolve (d.bindings supplied) container) := by
  unfold resolve
  cases hname : reference? e.fromParam with
  | none => rfl
  | some name =>
    simp only [Owner.lookup_bindings _ _ _ hname, c.referenceFault?_eq_of_same h]
    cases d.referenceFault? (.env e.name container) e.fromParam with
    | some f => rfl
    | none =>
      have hliteral : (c.effectiveValue supplied name).HasLiteral ↔
          (d.effectiveValue supplied name).HasLiteral :=
        Component.hasLiteral_effectiveValue_iff h honce name
      exact (failure?_bind_ok _ _).trans
        ((Value.failure?_envText hliteral).trans (failure?_bind_ok _ _).symm)

lemma Container.failure?_resolve_eq (k : Container) :
    failure? (k.resolve (c.bindings supplied)) = failure? (k.resolve (d.bindings supplied)) := by
  have henv := failure?_mapM (Env.resolve (c.bindings supplied) k.name) k.env
  simp only [Env.failure?_resolve_eq h honce, ← failure?_mapM] at henv
  exact (failure?_bind_ok _ _).trans (henv.trans (failure?_bind_ok _ _).symm)

omit honce in
/-- Settings that are the same fail alike. -/
lemma WorkloadSetting.failure?_resolve_eq {s t : WorkloadSetting} (hst : s.same t = true) :
    failure? (s.resolve (c.bindings supplied)) = failure? (t.resolve (d.bindings supplied)) := by
  simp only [same, Bool.and_eq_true, beq_iff_eq] at hst
  have hfault : c.settingFault? s = d.settingFault? t := by
    rw [Component.settingFault?, Component.settingFault?, c.referenceFault?_eq_of_same h, hst.2,
      hst.1.1.1.1.1]
  rw [resolve_bindings, resolve_bindings, hfault]
  cases d.settingFault? t <;> rfl

/-- Components that are the same fail alike. -/
lemma Component.failure?_substitute_eq :
    failure? (c.substitute (c.bindings supplied))
      = failure? (d.substitute (d.bindings supplied)) := by
  have hcontainers : failure? (c.containers.mapM (Container.resolve (c.bindings supplied)))
      = failure? (d.containers.mapM (Container.resolve (d.bindings supplied))) := by
    simp only [failure?_mapM, Container.failure?_resolve_eq h honce, containers_eq_of_same h]
  have hsettings : failure?
      (c.workloadSettings.mapM (WorkloadSetting.resolve (c.bindings supplied)))
      = failure? (d.workloadSettings.mapM (WorkloadSetting.resolve (d.bindings supplied))) := by
    have hsame : List.Forall₂ (fun s t => s.same t = true) c.workloadSettings
        d.workloadSettings := by
      simp only [same, Bool.and_eq_true] at h
      exact pairwiseSame_iff.mp h.2
    rw [failure?_mapM, failure?_mapM]
    generalize c.workloadSettings = ss, d.workloadSettings = ts at hsame
    induction hsame with
    | nil => rfl
    | cons hst _ ih =>
      rw [List.findSome?_cons, List.findSome?_cons, WorkloadSetting.failure?_resolve_eq h hst, ih]
  have hsubstitute (c : Component) : failure? (c.substitute (c.bindings supplied))
      = (failure? (c.containers.mapM (Container.resolve (c.bindings supplied)))).or
        (failure? (c.workloadSettings.mapM (WorkloadSetting.resolve (c.bindings supplied)))) :=
    failure?_bind _ fun _ => failure?_bind_ok _ _
  rw [hsubstitute c, hsubstitute d, hcontainers, hsettings]

/-- Components that are the same fail to have a manifest in the same way. -/
lemma Component.failure?_podManifest_eq :
    failure? (c.podManifest supplied) = failure? (d.podManifest supplied) := by
  have hresolve : failure? (c.resolve supplied) = failure? (d.resolve supplied) := by
    rw [resolve, resolve, effectiveValues_eq, effectiveValues_eq, valueFault?_eq_of_same h]
    cases d.valueFault? supplied with
    | some e => rfl
    | none => exact failure?_substitute_eq h honce
  exact (failure?_bind_ok _ _).trans (hresolve.trans (failure?_bind_ok _ _).symm)

end

/-! ### The same manifests -/

/-- An environment variable of the component refers to the name. -/
def Component.RefersTo (c : Component) (name : Text) : Prop :=
  ∃ k ∈ c.containers, ∃ e ∈ k.env, reference? e.fromParam = some name

/-- A variable makes the same pod with two values if they are written alike. -/
lemma Env.toPod_withValues_eq_iff {values others : Text → Value} {e : Env} :
    (e.withValues values).toPod = (e.withValues others).toPod ↔
      ∀ name, reference? e.fromParam = some name →
        (values name).rendering = (others name).rendering := by
  unfold withValues toPod
  cases reference? e.fromParam <;> simp

/-- A container makes the same pod with two lists of values if those that it refers to are written
alike. -/
lemma Container.toPod_withValues_eq_iff {values others : Text → Value} {k : Container} :
    (k.withValues values).toPod = (k.withValues others).toPod ↔
      ∀ e ∈ k.env, ∀ name, reference? e.fromParam = some name →
        (values name).rendering = (others name).rendering := by
  simp only [toPod, withValues, PodContainer.mk.injEq, and_true, List.map_map, List.map_inj_left,
    Function.comp_apply, Env.toPod_withValues_eq_iff]

/-- Manifests of components with the same containers are the same if all that is referred to is
written alike. -/
lemma Component.manifest_withValues_same_iff {values others : Text → Value}
    (h : c.containers = d.containers) :
    (Json.object (c.withValues values).toPodSpec.manifest).toValue.same
        (Json.object (d.withValues others).toPodSpec.manifest).toValue = true ↔
      ∀ name, c.RefersTo name → (values name).rendering = (others name).rendering := by
  rw [PodSpec.manifest_same_iff]
  simp only [toPodSpec, withValues, PodSpec.mk.injEq, ← h, List.map_map, List.map_inj_left,
    Function.comp_apply, Container.toPod_withValues_eq_iff]
  constructor
  · rintro hall name ⟨k, hk, e, he, hname⟩
    exact hall k hk e he name hname
  · intro hall k hk e he name hname
    exact hall name ⟨k, hk, e, he, hname⟩

/-- Manifests of the same containers are the same if the values they refer to are written alike. -/
lemma Component.podManifest_same_iff {m n : List (Text × Json)} (h : c.containers = d.containers)
    (hm : c.podManifest supplied = .ok m) (hn : d.podManifest supplied = .ok n) :
    (Json.object m).toValue.same (Json.object n).toValue = true ↔ ∀ name, c.RefersTo name →
      (c.effectiveValue supplied name).rendering = (d.effectiveValue supplied name).rendering := by
  rw [manifest_eq_of_ok hm, manifest_eq_of_ok hn]
  exact manifest_withValues_same_iff h

/-- Of components that are the same either none has a manifest, and a fault is then reported for
both, or both have one. Their manifests are the same exactly if the effective values of all names
that environment variables refer to are written alike. -/
theorem Component.podManifest_of_same (c d : Component) (supplied : Bindings) (h : c.same d = true)
    (honce : ∀ p ∈ c.parameters, p.default.BindsOnce) :
    (∀ e, c.podManifest supplied = .error (.parameter e) ↔
      d.podManifest supplied = .error (.parameter e)) ∧
      ((∃ m, c.podManifest supplied = .ok m) ↔ ∃ n, d.podManifest supplied = .ok n) ∧
      ∀ m n, c.podManifest supplied = .ok m → d.podManifest supplied = .ok n →
        ((Json.object m).toValue.same (Json.object n).toValue = true ↔
          ∀ name, c.RefersTo name →
            (c.effectiveValue supplied name).rendering
              = (d.effectiveValue supplied name).rendering) := by
  have hfailure : failure? (c.podManifest supplied) = failure? (d.podManifest supplied) :=
    failure?_podManifest_eq h honce
  refine ⟨fun e => ?_, ?_, fun m n hm hn => ?_⟩
  · rw [← failure?_eq_parameter_iff, ← failure?_eq_parameter_iff, hfailure]
  · rw [← failure?_eq_none_iff, ← failure?_eq_none_iff, hfailure]
  · exact podManifest_same_iff (containers_eq_of_same h) hm hn

end

/-! ### A default that comes as a truth value and as a number -/

namespace Component

/-- A component whose environment variable refers to a parameter with a default. -/
def withPort (v : Value) : Component where
  parameters := [{ name := "port", type := .number, default := v }]
  containers :=
    [{ name := "main", image := "nginx", env := [{ name := "PORT", fromParam := some "port" }] }]

lemma withPort_same_iff {v w : Value} :
    (withPort v).same (withPort w) = true ↔ v.same w = true := by
  simp [withPort, same, pairwiseSame, Parameter.same]

/-- The component with a plain default has a manifest. -/
lemma podManifest_withPort {v : Value} (h : v.IsPlain Json.IsShort) :
    ∃ m, (withPort v).podManifest [] = .ok m := by
  have hplain : ∀ name, ((withPort v).effectiveValue [] name).IsPlain Json.IsShort :=
    effectiveValue_isPlain trivial (by simpa [withPort] using h) (by simp)
  have hknown : (withPort v).unknownFault? [] = none :=
    (unknownFault?_eq_none _ _).mpr (by simp)
  have hfault : (withPort v).fault? [] = none := by
    rw [fault?, valueFault?, hknown]
    rfl
  rw [podManifest, resolve_eq hplain, hfault]
  exact ⟨_, rfl⟩

lemma refersTo_withPort (v : Value) : (withPort v).RefersTo "port" :=
  ⟨_, List.mem_cons_self, _, List.mem_cons_self, rfl⟩

lemma isShort_one : (Json.int 1).IsShort := by
  change (1 : Int).natAbs < Value.writingLimit
  decide +kernel

/-- Defaults with another order of entries and another type of a number. -/
theorem podManifest_of_same_reordered :
    let v : Value := .map [(.text "a", .int 1), (.text "b", .null)]
    let w : Value := .map [(.text "b", .null), (.text "a", .bool true)]
    (withPort v).same (withPort w) = true ∧ (∀ p ∈ (withPort v).parameters, p.default.BindsOnce) ∧
      ∃ m n, (withPort v).podManifest [] = .ok m ∧ (withPort w).podManifest [] = .ok n ∧
        ((Json.object m).toValue.same (Json.object n).toValue = true ↔
          ∀ name, (withPort v).RefersTo name →
            ((withPort v).effectiveValue [] name).rendering
              = ((withPort w).effectiveValue [] name).rendering) := by
  intro v w
  have hsame : (withPort v).same (withPort w) = true := by
    rw [withPort_same_iff]
    simp [v, w, Value.same, Value.allEntries, Value.sameScalar, Value.integer?]
  have honce : ∀ p ∈ (withPort v).parameters, p.default.BindsOnce := by
    have hne : Text.ofString "a" ≠ Text.ofString "b" := by decide
    simp [withPort, v, Value.BindsOnce, Value.BindOnceEntries, Value.HaveDistinctKeys,
      Value.IsHashable, hne]
  have hplain : v.IsPlain Json.IsShort :=
    ⟨.object [("a", .int 1), ("b", .null)], rfl, trivial, isShort_one, trivial, trivial⟩
  obtain ⟨m, hm⟩ := podManifest_withPort hplain
  obtain ⟨-, hok, hiff⟩ := podManifest_of_same _ _ [] hsame honce
  obtain ⟨n, hn⟩ := hok.mp ⟨m, hm⟩
  exact ⟨hsame, honce, m, n, hm, hn, hiff m n hm hn⟩

/-- A truth value is the same as the number 1, but it is not written alike. -/
theorem podManifest_true_one :
    (withPort (.bool true)).same (withPort (.int 1)) = true ∧
      ∃ m n, (withPort (.bool true)).podManifest [] = .ok m ∧
        (withPort (.int 1)).podManifest [] = .ok n ∧
        (Json.object m).toValue.same (Json.object n).toValue = false := by
  have hsame : (withPort (.bool true)).same (withPort (.int 1)) = true := by
    rw [withPort_same_iff]
    simp [Value.same, Value.sameScalar, Value.integer?]
  obtain ⟨m, hm⟩ := podManifest_withPort (v := .bool true) ⟨.bool true, rfl, trivial⟩
  obtain ⟨n, hn⟩ := podManifest_withPort (v := .int 1) ⟨.int 1, rfl, isShort_one⟩
  refine ⟨hsame, m, n, hm, hn, ?_⟩
  have hrendering : (Value.int 1).rendering = some (.ofString "1") := by
    have hliteral : (Value.int 1).literal = .ok (.int 1) :=
      Json.literal_toValue (.int 1) isShort_one
    simp only [Value.rendering, hliteral]
    rfl
  rw [← Bool.not_eq_true, podManifest_same_iff (containers_eq_of_same hsame) hm hn]
  intro hall
  have hport : (Value.bool true).rendering = (Value.int 1).rendering :=
    hall "port" (refersTo_withPort _)
  rw [hrendering] at hport
  exact absurd hport (by decide)

end Component

end Schematic
