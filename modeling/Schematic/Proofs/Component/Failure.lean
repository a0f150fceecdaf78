import Schematic.Proofs.Component.Agreement
import Schematic.Proofs.Component.Reading
import Schematic.Proofs.Component.Resolution
import Schematic.Proofs.Json.Data
import Schematic.Proofs.Value.Literal

/-!
# What resolution fails by

Resolution reads the supplied values, then the environment variables of all containers in a row,
then the settings, and stops at the first fault. The faults are those of supplied values and of
names, and one more: an environment variable refers to a parameter whose value has no literal. In a
component that is read from JSON text this is an integer that is supplied and is too long. In others
it may be any default, since defaults are not checked.
-/

namespace Schematic

/-! ### Literals -/

namespace Value

variable {v : Value} {e : LiteralError}

/-- What the text of a value in an environment variable fails by. -/
def literalFault? (v : Value) : Option LiteralError :=
  match v.envText with
  | .error e => some e
  | .ok _ => none

/-- A value is rendered unless it has no literal. -/
lemma envText_eq (v : Value) : v.envText = unlessFault v.literalFault? v.rendering := by
  cases v with
  | null | text _ => simp [literalFault?, envText, rendering]
  | bool b => cases b <;> rfl
  | int _ | float _ | bytes _ | date _ | dateTime _ | list _ | tuple _ | set _ | map _ =>
    simp only [literalFault?, envText, rendering]
    cases literal _ <;> rfl

/-- A value has a fault, or a literal. -/
lemma literalFault?_eq_none_iff : v.literalFault? = none ↔ v.HasLiteral := by
  cases v with
  | null | text _ => simp [literalFault?, envText, HasLiteral, literal]
  | _ =>
    simp only [literalFault?, envText, HasLiteral]
    cases literal _ <;> simp

lemma unwritten_of_literalFault? (h : v.literalFault? = some e) : v.Unwritten e := by
  apply unwritten_of_envText
  rw [envText_eq, h]
  rfl

end Value

namespace Component

variable {c : Component} {supplied : Bindings}

/-! ### The first fault -/

section

variable (c supplied)

/-- What is wrong with the reference of an environment variable: its name is not declared, or the
value has no literal. -/
def envFault? (container : Text) (e : Env) : Option ResolutionError :=
  ((c.referenceFault? (.env e.name container) e.fromParam).map .parameter).or
    ((reference? e.fromParam).bind
      fun name => (c.effectiveValue supplied name).literalFault?.map .literal)

/-- The environment variables of a component, each with the name of its container. -/
def envs : List (Text × Env) := c.containers.flatMap fun k => k.env.map (k.name, ·)

/-- The first fault that resolution meets. -/
def firstFault? : Option ResolutionError :=
  ((c.valueFault? supplied).map .parameter).or
    ((c.envs.findSome? fun e => c.envFault? supplied e.1 e.2).or
      ((c.workloadSettings.findSome? c.settingFault?).map .parameter))

/-- A variable is given its value unless it has a fault. -/
lemma resolve_env_eq (container : Text) (e : Env) :
    e.resolve (c.bindings supplied) container
      = unlessFault (c.envFault? supplied container e)
        (e.withValues (c.effectiveValue supplied)) := by
  unfold Env.resolve Env.withValues envFault?
  cases hname : reference? e.fromParam with
  | none => simp [referenceFault?, hname]
  | some name =>
    simp only [Owner.lookup_bindings c supplied _ hname]
    cases c.referenceFault? (.env e.name container) e.fromParam with
    | some f => rfl
    | none =>
      simp only [Option.map_none, unlessFault_none, ok_bind, Value.envText_eq, Option.none_or,
        Option.bind_some]
      cases (c.effectiveValue supplied name).literalFault? <;> rfl

/-- A container is given its values unless one of its variables has a fault. -/
lemma resolve_container_eq (k : Container) :
    k.resolve (c.bindings supplied) =
      unlessFault (k.env.findSome? (c.envFault? supplied k.name))
        (k.withValues (c.effectiveValue supplied)) := by
  rw [Container.resolve,
    mapM_eq_unlessFault k.env _ _ fun e _ => c.resolve_env_eq supplied k.name e]
  cases k.env.findSome? (c.envFault? supplied k.name) <;> rfl

/-- The first fault among all variables is that of the first container with one. -/
lemma findSome?_envs {β : Type} (f : Text → Env → Option β) :
    (c.envs.findSome? fun e => f e.1 e.2)
      = c.containers.findSome? fun k => k.env.findSome? (f k.name) := by
  rw [envs]
  induction c.containers with
  | nil => rfl
  | cons k ks ih =>
    rw [List.flatMap_cons, List.findSome?_append, List.findSome?_map, List.findSome?_cons, ih]
    change (k.env.findSome? (f k.name)).or _ = _
    cases k.env.findSome? (f k.name) <;> rfl

/-- Resolution puts the effective values in the place of all references, unless it meets a fault. -/
theorem resolve_eq_unlessFault :
    c.resolve supplied =
      unlessFault (c.firstFault? supplied) (c.withValues (c.effectiveValue supplied)) := by
  have hcontainers :=
    mapM_eq_unlessFault c.containers _ _ fun k _ => c.resolve_container_eq supplied k
  have hsettings := mapM_eq_unlessFault_map c.workloadSettings _ _ _
    fun s _ => WorkloadSetting.resolve_bindings c supplied s
  rw [resolve, effectiveValues_eq, mapError_unlessFault, firstFault?, findSome?_envs]
  cases c.valueFault? supplied with
  | some e => rfl
  | none =>
    simp only [Option.map_none, unlessFault_none, ok_bind, Option.none_or]
    rw [substitute, hcontainers, hsettings]
    cases c.containers.findSome? fun k => k.env.findSome? (c.envFault? supplied k.name) with
    | some e => rfl
    | none => cases c.workloadSettings.findSome? c.settingFault? <;> rfl

end

/-! ### References that are reached -/

/-- Resolution gets as far as a reference to a name: nothing is wrong with the supplied values, the
name is declared, and every earlier reference of an environment variable is to a declared name whose
value has a literal. -/
structure Reaches (c : Component) (supplied : Bindings) (name : Text) : Prop where
  accepted : c.valueFault? supplied = none
  declared : c.Declares name
  first : ∃ before e after, c.envs = before ++ e :: after ∧ reference? e.2.fromParam = some name ∧
    ∀ b ∈ before, ∀ n, reference? b.2.fromParam = some n →
      c.Declares n ∧ ∀ f, ¬ (c.effectiveValue supplied n).Unwritten f

/-- A variable has no fault if it refers to nothing, or to a declared parameter whose value can be
written. -/
lemma envFault?_eq_none_iff {container : Text} {e : Env} :
    c.envFault? supplied container e = none ↔
      ∀ name, reference? e.fromParam = some name →
        c.Declares name ∧ ∀ f, ¬ (c.effectiveValue supplied name).Unwritten f := by
  simp only [← Value.hasLiteral_iff_forall_not_unwritten, ← Value.literalFault?_eq_none_iff]
  rw [envFault?, Option.or_eq_none_iff, Option.map_eq_none_iff, referenceFault?_eq_none_iff]
  simp only [← and_imp, ← reference?_eq_some_iff]
  cases reference? e.fromParam <;> simp

/-- A variable fails by a literal if it refers to a declared parameter whose value has none. -/
lemma envFault?_eq_literal_iff {container : Text} {e : Env} {f : LiteralError} :
    c.envFault? supplied container e = some (.literal f) ↔
      ∃ name, reference? e.fromParam = some name ∧ c.Declares name ∧
        (c.effectiveValue supplied name).literalFault? = some f := by
  unfold envFault? referenceFault?
  cases reference? e.fromParam with
  | none => simp
  | some name =>
    simp only [declares_iff, Option.some.injEq, exists_eq_left']
    cases c.declaration? name <;> simp

/-- Resolution fails by the literal of a value exactly if it reaches a reference to a parameter of
that value. -/
theorem resolve_eq_literal_iff {f : LiteralError} :
    c.resolve supplied = .error (.literal f) ↔
      ∃ name, c.Reaches supplied name ∧
        (c.effectiveValue supplied name).literalFault? = some f := by
  have hfirst : c.resolve supplied = .error (.literal f) ↔
      c.firstFault? supplied = some (.literal f) := by
    rw [resolve_eq_unlessFault]
    cases c.firstFault? supplied <;> simp
  have hvalues : c.firstFault? supplied = some (.literal f) ↔
      c.valueFault? supplied = none ∧
        (c.envs.findSome? fun e => c.envFault? supplied e.1 e.2) = some (.literal f) := by
    unfold firstFault?
    cases c.valueFault? supplied with
    | some e => simp
    | none =>
      cases c.envs.findSome? fun e => c.envFault? supplied e.1 e.2 with
      | some e => simp
      | none => cases c.workloadSettings.findSome? c.settingFault? <;> simp
  rw [hfirst, hvalues, List.findSome?_eq_some_iff]
  simp only [envFault?_eq_literal_iff, envFault?_eq_none_iff]
  -- Both sides name the first variable with a fault: the one by its fault, the other by its
  -- reference.
  constructor
  · rintro ⟨haccepted, before, e, after, henvs, ⟨name, hname, hdeclared, hfault⟩, hbefore⟩
    exact ⟨name, ⟨haccepted, hdeclared, before, e, after, henvs, hname, hbefore⟩, hfault⟩
  · rintro ⟨name, ⟨haccepted, hdeclared, before, e, after, henvs, hname, hbefore⟩, hfault⟩
    exact ⟨haccepted, before, e, after, henvs, ⟨name, hname, hdeclared, hfault⟩, hbefore⟩

/-! ### What the values come from -/

/-- A value that is admitted is written, unless it is an integer that is too long. -/
lemma unwritten_of_admits {type : ParameterType} {v : Value} {f : LiteralError}
    (hadmits : type.admits v = true) (h : v.Unwritten f) :
    ∃ n, v = .int n ∧ Value.isTooLong n = true ∧ f = .tooManyDigits := by
  cases h with
  | kind h => cases v <;> first | exact h.elim | cases type <;> cases hadmits
  | long h => exact ⟨_, rfl, h, rfl⟩
  | item | component | key | value => cases type <;> cases hadmits

/-- What a reference that is reached is not written for: a default, or an integer that is supplied
and is too long. -/
lemma Reaches.unwritten_cases {name : Text} {f : LiteralError} (hreaches : c.Reaches supplied name)
    (h : (c.effectiveValue supplied name).Unwritten f) :
    (∃ p, c.declaration? name = some p ∧ supplied.value? name = none ∧ p.default.Unwritten f) ∨
      ∃ n, supplied.value? name = some (.int n) ∧ Value.isTooLong n = true ∧
        f = .tooManyDigits := by
  obtain ⟨p, hp⟩ := Option.isSome_iff_exists.mp (declares_iff.mp hreaches.declared)
  rw [effectiveValue, hp] at h
  cases hvalue : supplied.value? name with
  | none =>
    rw [hvalue] at h
    exact .inl ⟨p, hp, rfl, h⟩
  | some v =>
    have haccepted := hreaches.accepted
    rw [valueFault?, Option.or_eq_none_iff, List.findSome?_eq_none_iff] at haccepted
    obtain ⟨hfirst, rfl⟩ := mem_firsts_of_declaration? hp
    have hadmits := (Parameter.fault?_eq_none_iff.mp (haccepted.2 p hfirst)).1 v hvalue
    rw [hvalue] at h
    obtain ⟨n, rfl, hlong⟩ := unwritten_of_admits hadmits h
    exact .inr ⟨n, rfl, hlong⟩

/-- The defaults of a component that is read from JSON text are written. -/
lemma not_unwritten_default {t : Text} {j : Json} (hread : Json.read t = .ok j)
    (hc : ofText t = .ok c) {p : Parameter} (hp : p ∈ c.parameters) (f : LiteralError) :
    ¬ p.default.Unwritten f := by
  have hshort : j.toValue.IsPlain Json.IsShort :=
    ⟨j, rfl, Json.every_of_read Json.holdsOfSpelled_isShort hread⟩
  have hkeeps := keeps_read Json.isCommon_isShort.holdsOfWords .values j.toValue hshort
  rw [(ofText_eq_ok_iff hread).mp hc] at hkeeps
  have hplain := (isPlain_toValue_iff Json.isCommon_isShort c).mp hkeeps
  have hdefault := (hplain.parameters p hp).envText_eq
  apply Value.hasLiteral_iff_forall_not_unwritten.mp
  rw [← Value.literalFault?_eq_none_iff, Value.literalFault?, hdefault]

/-! ### The contract -/

/-- Resolution gives a component, or refuses the supplied values or a reference. -/
def ResolvesOrRefuses (c : Component) (supplied : Bindings) : Prop :=
  (∃ r, c.resolve supplied = .ok r) ∨ ∃ e, c.resolve supplied = .error (.parameter e)

/-- Only a literal that fails makes a resolution neither succeed nor refuse. -/
lemma resolvesOrRefuses_iff :
    c.ResolvesOrRefuses supplied ↔ ∀ f, c.resolve supplied ≠ .error (.literal f) := by
  unfold ResolvesOrRefuses
  cases c.resolve supplied with
  | ok r => simp
  | error e => cases e <;> simp

instance (c : Component) (supplied : Bindings) : Decidable (c.ResolvesOrRefuses supplied) :=
  match h : c.resolve supplied with
  | .ok r => .isTrue (.inl ⟨r, h⟩)
  | .error (.parameter e) => .isTrue (.inr ⟨e, h⟩)
  | .error (.literal f) => .isFalse fun hc => resolvesOrRefuses_iff.mp hc f h

/-- Resolution gives a component or refuses what it is given, unless it reaches a reference to a
value that holds something without a literal. Such a value is a default, or an integer that is
supplied and is too long. In a component from JSON text it is no default. -/
theorem resolvesOrRefuses_iff_of_reaches (c : Component) (supplied : Bindings) :
    (c.ResolvesOrRefuses supplied ↔
      ∀ name, c.Reaches supplied name → ∀ f, ¬ (c.effectiveValue supplied name).Unwritten f) ∧
    (∀ f, c.resolve supplied = .error (.literal f) → ∃ name, c.Reaches supplied name ∧
      ((∃ p, c.declaration? name = some p ∧ supplied.value? name = none ∧ p.default.Unwritten f) ∨
        ∃ n, supplied.value? name = some (.int n) ∧ Value.isTooLong n = true ∧
          f = .tooManyDigits)) ∧
    ∀ t j, Json.read t = .ok j → ofText t = .ok c →
      (∀ name n, supplied.value? name = some (.int n) → Value.isTooLong n = false) →
        c.ResolvesOrRefuses supplied := by
  have hcause : ∀ f, c.resolve supplied = .error (.literal f) →
      ∃ name, c.Reaches supplied name ∧
        ((∃ p, c.declaration? name = some p ∧ supplied.value? name = none ∧
            p.default.Unwritten f) ∨
          ∃ n, supplied.value? name = some (.int n) ∧ Value.isTooLong n = true ∧
            f = .tooManyDigits) := by
    intro f hf
    obtain ⟨name, hreaches, hfault⟩ := resolve_eq_literal_iff.mp hf
    exact ⟨name, hreaches, hreaches.unwritten_cases (Value.unwritten_of_literalFault? hfault)⟩
  refine ⟨?_, hcause, ?_⟩
  · -- A fault of a literal is what is left when the parameters are accepted.
    simp only [resolvesOrRefuses_iff, ne_eq, resolve_eq_literal_iff, not_exists, not_and,
      ← Value.hasLiteral_iff_forall_not_unwritten, ← Value.literalFault?_eq_none_iff,
      Option.eq_none_iff_forall_ne_some]
    exact ⟨fun h name hreaches f => h f name hreaches, fun h f name hreaches => h name hreaches f⟩
  · intro t j hread hc hshort
    rw [resolvesOrRefuses_iff]
    intro f hf
    obtain ⟨name, -, ⟨p, hp, -, hunwritten⟩ | ⟨n, hn, hlong, -⟩⟩ := hcause f hf
    · -- A default that came from JSON has a literal.
      exact not_unwritten_default hread hc (List.mem_of_find?_eq_some hp) f hunwritten
    · rw [hshort name n hn] at hlong
      cases hlong

/-- A JSON document in which an environment variable refers to a parameter with a number in its
default. -/
def weighted : Text :=
  "\x7b\"parameters\": [\x7b\"name\": \"weight\", \"type\": \"Number\", \"default\": 0.5\x7d], " ++
    "\"containers\": [\x7b\"name\": \"main\", \"image\": \"nginx\", " ++
    "\"env\": [\x7b\"name\": \"WEIGHT\", \"fromParam\": \"weight\"\x7d]\x7d]\x7d"

/-- A number of a JSON document takes the place of the reference. -/
theorem resolvesOrRefuses_weighted :
    ∃ j c, Json.read weighted = .ok j ∧ ofText weighted = .ok c ∧ c.ResolvesOrRefuses [] := by
  have hread : (Json.read weighted).isOk = true := by decide +kernel
  have hcomponent : (ofText weighted).isOk = true := by decide +kernel
  cases hj : Json.read weighted with
  | error e =>
    rw [hj] at hread
    cases hread
  | ok j =>
    cases hc : ofText weighted with
    | error e =>
      rw [hc] at hcomponent
      cases hcomponent
    | ok c =>
      refine ⟨j, c, rfl, rfl, (resolvesOrRefuses_iff_of_reaches c []).2.2 weighted j hj hc ?_⟩
      intro name n hn
      cases hn

/-- A document in which an environment variable refers to a parameter with a date in its default. -/
def dated : Text :=
  "parameters:\n- name: day\n  type: String\n  default: \x7bd: 2020-01-02\x7d\n"
    ++ "containers:\n- name: main\n  image: nginx\n  env:\n  - name: DAY\n    fromParam: day\n"

/-- A date has no literal, and the error that tells of it is none of the parameters. -/
theorem not_resolvesOrRefuses_dated : ∃ c, ofText dated = .ok c ∧ ¬ c.ResolvesOrRefuses [] := by
  have h : ((ofText dated).toOption.map fun c => decide (c.ResolvesOrRefuses [])) = some false := by
    decide +kernel
  cases hc : ofText dated with
  | error e =>
    rw [hc] at h
    cases h
  | ok c =>
    rw [hc] at h
    exact ⟨c, rfl, of_decide_eq_false (Option.some.inj h)⟩

end Component

end Schematic
