import Schematic.Component.Resolution
import Schematic.Proofs.Fault
import Schematic.Proofs.Json.Every

/-!
# What resolution does

The faults of supplied values stand in a list: names that are not declared, then what is wrong with
each parameter by its first declaration, then references of containers and of settings to what is
not declared. Resolution fails with the first fault of that list. When there is none, it puts the
effective values in the place of all references and changes nothing else.
-/

namespace Schematic

/-! ### Literals of plain data -/

mutual

/-- Plain data without integers that are too long is its own literal. -/
theorem Json.literal_toValue (j : Json) (h : j.Every Json.IsShort) :
    j.toValue.literal = .ok j := by
  match j with
  | .null | .bool _ | .float _ | .text _ => simp [Json.toValue, Value.literal]
  | .int n =>
    have hn : Value.isTooLong n = false := by
      rw [Value.isTooLong, decide_eq_false_iff_not, Nat.not_le]
      exact h.self
    simp [Json.toValue, Value.literal, hn]
  | .array js =>
    rw [Json.toValue, Value.literal, Json.literalItems_toValues js h.2]
    rfl
  | .object es =>
    rw [Json.toValue, Value.literal, Json.literalEntries_toEntries es h.2]
    rfl

/-- Plain items are their own literals. -/
theorem Json.literalItems_toValues (js : List Json) (h : Json.EveryItem Json.IsShort js) :
    Value.literalItems (Json.toValues js) = .ok js := by
  match js with
  | [] => rfl
  | j :: js =>
    rw [Json.toValues, Value.literalItems, Json.literal_toValue j h.1,
      Json.literalItems_toValues js h.2]
    rfl

/-- Plain entries are their own literals. -/
theorem Json.literalEntries_toEntries (es : List (Text × Json))
    (h : Json.EveryEntry Json.IsShort es) :
    Value.literalEntries (Json.toEntries es) = .ok es := by
  match es with
  | [] => rfl
  | (name, j) :: es =>
    rw [Json.toEntries, Value.literalEntries, Value.literalKey, Json.literal_toValue j h.1,
      Json.literalEntries_toEntries es h.2]
    rfl

end

/-- The text of a value in an environment variable: null has none, a text is its own, and everything
else is written as JSON text. -/
def Value.rendering : Value → Option Text
  | .null => none
  | .text t => some t
  | .bool b => some (if b then "true" else "false")
  | v => v.literal.toOption.map (Json.render Json.ascii)

/-- A plain value is rendered without fail. -/
lemma Value.IsPlain.envText_eq {v : Value} (h : v.IsPlain Json.IsShort) :
    v.envText = .ok v.rendering := by
  obtain ⟨j, rfl, hj⟩ := h
  cases j with
  | null | text t => simp [Json.toValue, Value.envText, Value.rendering]
  | bool b => cases b <;> rfl
  | int n | float x | array js | object es =>
    have hliteral := Json.literal_toValue _ hj
    simp only [Json.toValue] at hliteral
    simp only [Json.toValue, Value.envText, Value.rendering, hliteral]
    rfl

/-! ### Declarations -/

/-- The first declaration of a name. -/
def Component.declaration? (c : Component) (name : Text) : Option Parameter :=
  c.parameters.find? (·.name == name)

/-- The effective value of a name: the supplied one, or else the default of its first
declaration. -/
def Component.effectiveValue (c : Component) (supplied : Bindings) (name : Text) : Value :=
  (supplied.value? name).getD (((c.declaration? name).map (·.default)).getD .null)

/-- The first declarations hold the first declaration of each name. -/
lemma Parameter.find?_firsts (ps : List Parameter) (name : Text) :
    (firsts ps).find? (·.name == name) = ps.find? (·.name == name) := by
  induction ps with
  | nil => rfl
  | cons p ps ih =>
    rw [firsts, List.find?_cons, List.find?_cons]
    cases hp : p.name == name with
    | true => rfl
    | false =>
      have hname (q : Parameter) :
          decide ((q.name != p.name) = true ∧ (q.name == name) = true) = (q.name == name) := by
        grind
      simp only [List.find?_filter, hname]
      exact ih

/-- The parameters that are kept are the first declarations of their names. -/
lemma Parameter.mem_firsts_iff {ps : List Parameter} {p : Parameter} :
    p ∈ firsts ps ↔ ps.find? (·.name == p.name) = some p := by
  induction ps with
  | nil => simp [firsts]
  | cons q ps ih =>
    rw [firsts, List.find?_cons, List.mem_cons, List.mem_filter]
    by_cases hq : q.name = p.name
    · simp [hq, eq_comm]
    · have hpq : p ≠ q := fun h => hq (h ▸ rfl)
      have hname : (q.name == p.name) = false := by simpa using hq
      simp [hname, hpq, Ne.symm hq, ih]

/-- A declaration is the first one of its name. -/
lemma Component.mem_firsts_of_declaration? {c : Component} {name : Text} {p : Parameter}
    (h : c.declaration? name = some p) : p ∈ Parameter.firsts c.parameters ∧ p.name = name := by
  have hname : p.name = name := by simpa using List.find?_some h
  refine ⟨Parameter.mem_firsts_iff.mpr ?_, hname⟩
  rw [hname]
  exact h

/-- What a name is bound to is bound to it in the list. -/
lemma Bindings.mem_of_value? {bs : Bindings} {name : Text} {v : Value}
    (h : bs.value? name = some v) :
    (name, v) ∈ bs := by
  obtain ⟨b, hb, rfl⟩ := Option.map_eq_some_iff.mp h
  have hname : b.1 = name := by simpa using List.find?_some hb
  exact hname ▸ List.mem_of_find?_eq_some hb

/-- What is wrong with a parameter under supplied values. -/
def Parameter.fault? (supplied : Bindings) (p : Parameter) : Option ParameterError :=
  match supplied.value? p.name with
  | some v => if p.type.admits v then none else some (.mistyped p.name p.type v)
  | none => if p.required && p.default.isNull then some (.missing p.name) else none

lemma Value.isNull_iff {v : Value} : v.isNull = true ↔ v = .null := by
  cases v <;> simp [isNull]

/-- A parameter has its supplied value, or else its default, unless that is at fault. -/
lemma Parameter.effective_eq (supplied : Bindings) (p : Parameter) :
    p.effective supplied =
      unlessFault (p.fault? supplied) ((supplied.value? p.name).getD p.default) := by
  unfold effective fault?
  cases supplied.value? p.name with
  | some v => by_cases h : p.type.admits v = true <;> simp [h]
  | none =>
    by_cases hnull : p.default.isNull = true
    · cases hr : p.required <;> simp [Value.isNull_iff.mp hnull, Value.isNull]
    · simp [hnull]

/-- The names that are supplied without a declaration, as one fault. -/
def Component.unknownFault? (c : Component) (supplied : Bindings) : Option ParameterError :=
  match c.unknownNames supplied with
  | [] => none
  | names => some (.unknown names)

/-- The effective values of the declared names. -/
def Component.bindings (c : Component) (supplied : Bindings) : Bindings :=
  (Parameter.firsts c.parameters).map fun p => (p.name, (supplied.value? p.name).getD p.default)

/-- The first fault of the supplied values themselves. -/
def Component.valueFault? (c : Component) (supplied : Bindings) : Option ParameterError :=
  (c.unknownFault? supplied).or
    ((Parameter.firsts c.parameters).findSome? (Parameter.fault? supplied))

/-- All declared names are bound to their values, unless one of them is at fault. -/
lemma Component.effectiveValues_eq (c : Component) (supplied : Bindings) :
    c.effectiveValues supplied = unlessFault (c.valueFault? supplied) (c.bindings supplied) := by
  unfold effectiveValues valueFault? unknownFault?
  cases c.unknownNames supplied with
  | cons name names => rfl
  | nil =>
    simp only [Option.none_or, bindings]
    refine mapM_eq_unlessFault _ _ _ fun p _ => ?_
    rw [p.effective_eq]
    cases p.fault? supplied <;> rfl

/-- The value that is found under a name is the effective one, if the name is declared. -/
lemma Component.value?_effective (c : Component) (supplied : Bindings) (name : Text) :
    Bindings.value? name ((Parameter.firsts c.parameters).map fun p =>
        (p.name, (supplied.value? p.name).getD p.default))
      = (c.declaration? name).map fun _ => c.effectiveValue supplied name := by
  unfold effectiveValue declaration?
  rw [Bindings.value?, List.find?_map, Option.map_map, ← Parameter.find?_firsts]
  cases h : (Parameter.firsts c.parameters).find? (·.name == name) with
  | none => simpa [Function.comp_def] using h
  | some p =>
    have hp : p.name = name := by simpa using List.find?_some h
    simp [Function.comp_def, h, hp]

/-- No name is unknown if each is declared. -/
lemma Component.unknownFault?_eq_none (c : Component) (supplied : Bindings) :
    c.unknownFault? supplied = none ↔
      ∀ b ∈ supplied, ∃ p, c.declaration? b.1 = some p := by
  have hnames : c.unknownFault? supplied = none ↔ c.unknownNames supplied = [] := by
    unfold unknownFault?
    cases c.unknownNames supplied <;> simp
  rw [hnames, ← List.length_eq_zero_iff, unknownNames, List.length_mergeSort,
    List.length_eq_zero_iff]
  simp only [List.filter_eq_nil_iff, List.forall_mem_map, declaration?]
  simp [← Option.isSome_iff_exists]

/-! ### References -/

section

variable (c : Component) (supplied : Bindings)

/-- The fault of a reference: its name is not declared. -/
def Component.referenceFault? (owner : Owner) (reference : Option Text) : Option ParameterError :=
  match reference? reference with
  | none => none
  | some name => if (c.declaration? name).isSome then none else some (.undeclared owner name)

/-- What is wrong with the references of a container. -/
def Component.containerFault? (k : Container) : Option ParameterError :=
  k.env.findSome? fun e => c.referenceFault? (.env e.name k.name) e.fromParam

/-- What is wrong with the reference of a setting. -/
def Component.settingFault? (s : WorkloadSetting) : Option ParameterError :=
  c.referenceFault? (.setting s.name) s.fromParam

/-- An environment variable in which the rendering of a value takes the place of a reference. -/
def Env.withValues (values : Text → Value) (e : Env) : Env :=
  match reference? e.fromParam with
  | none => e
  | some name => { e with value := (values name).rendering, fromParam := none }

/-- A container whose environment variables hold values in the place of references. -/
def Container.withValues (values : Text → Value) (k : Container) : Container :=
  { k with env := k.env.map (Env.withValues values) }

/-- A setting whose default is a value in the place of a reference. -/
def WorkloadSetting.withValues (values : Text → Value) (s : WorkloadSetting) : WorkloadSetting :=
  match reference? s.fromParam with
  | none => s
  | some name => { s with default := values name, fromParam := none }

/-- A component that holds values in the place of references and is otherwise as it was. -/
def Component.withValues (values : Text → Value) : Component :=
  { c with
    containers := c.containers.map (Container.withValues values)
    workloadSettings := c.workloadSettings.map (WorkloadSetting.withValues values) }

/-- A reference is looked up among the effective values, unless its name is not declared. -/
lemma Owner.lookup_bindings (owner : Owner) {reference : Option Text} {name : Text}
    (hname : reference? reference = some name) :
    owner.lookup (c.bindings supplied) name =
      unlessFault ((c.referenceFault? owner reference).map .parameter)
        (c.effectiveValue supplied name) := by
  rw [lookup, Component.bindings, c.value?_effective, Component.referenceFault?]
  cases hp : c.declaration? name <;> simp [hname, hp]

variable {c supplied} in
/-- An effective value is one that is supplied, the default of a parameter, or null. -/
lemma Component.effectiveValue_isPlain {p : Json → Prop} (hnull : p .null)
    (hdefault : ∀ q ∈ c.parameters, q.default.IsPlain p) (hvalue : ∀ b ∈ supplied, b.2.IsPlain p)
    (name : Text) : (c.effectiveValue supplied name).IsPlain p := by
  unfold effectiveValue declaration? Bindings.value?
  cases hb : supplied.find? (·.1 == name) with
  | some b => exact hvalue b (List.mem_of_find?_eq_some hb)
  | none =>
    cases hq : c.parameters.find? (·.name == name) with
    | some q => exact hdefault q (List.mem_of_find?_eq_some hq)
    | none => exact ⟨.null, rfl, hnull⟩

variable {c supplied} in
/-- A variable is resolved unless its reference is at fault. -/
lemma Env.resolve_bindings (hplain : ∀ name, (c.effectiveValue supplied name).IsPlain Json.IsShort)
    (container : Text) (e : Env) :
    e.resolve (c.bindings supplied) container =
      unlessFault ((c.referenceFault? (.env e.name container) e.fromParam).map .parameter)
        (e.withValues (c.effectiveValue supplied)) := by
  unfold resolve withValues
  cases hname : reference? e.fromParam with
  | none => simp [Component.referenceFault?, hname]
  | some name =>
    simp only [Owner.lookup_bindings c supplied _ hname]
    cases c.referenceFault? (.env e.name container) e.fromParam with
    | some f => rfl
    | none =>
      simp only [Option.map_none, unlessFault_none, ok_bind, (hplain name).envText_eq]
      rfl

variable {c supplied} in
/-- A container is resolved unless one of its references is at fault. -/
lemma Container.resolve_bindings
    (hplain : ∀ name, (c.effectiveValue supplied name).IsPlain Json.IsShort) (k : Container) :
    k.resolve (c.bindings supplied) =
      unlessFault ((c.containerFault? k).map .parameter)
        (k.withValues (c.effectiveValue supplied)) := by
  have henv := mapM_eq_unlessFault_map k.env _ _ _
    fun e _ => Env.resolve_bindings hplain k.name e
  rw [resolve, henv, Component.containerFault?, withValues]
  cases k.env.findSome? fun e => c.referenceFault? (.env e.name k.name) e.fromParam <;> rfl

/-- A setting is resolved unless its reference is at fault. -/
lemma WorkloadSetting.resolve_bindings (s : WorkloadSetting) :
    s.resolve (c.bindings supplied) =
      unlessFault ((c.settingFault? s).map .parameter)
        (s.withValues (c.effectiveValue supplied)) := by
  unfold resolve withValues Component.settingFault?
  cases hname : reference? s.fromParam with
  | none => simp [Component.referenceFault?, hname]
  | some name =>
    simp only [Owner.lookup_bindings c supplied _ hname]
    cases c.referenceFault? (.setting s.name) s.fromParam <;> rfl

/-- The first fault of the references of a component. -/
def Component.substitutionFault? : Option ParameterError :=
  (c.containers.findSome? c.containerFault?).or (c.workloadSettings.findSome? c.settingFault?)

variable {c supplied} in
/-- All references are resolved unless one of them is at fault. -/
lemma Component.substitute_bindings
    (hplain : ∀ name, (c.effectiveValue supplied name).IsPlain Json.IsShort) :
    c.substitute (c.bindings supplied) =
      unlessFault (c.substitutionFault?.map .parameter)
        (c.withValues (c.effectiveValue supplied)) := by
  have hcontainers := mapM_eq_unlessFault_map c.containers _ _ _
    fun k _ => Container.resolve_bindings hplain k
  have hsettings := mapM_eq_unlessFault_map c.workloadSettings _ _ _
    fun s _ => WorkloadSetting.resolve_bindings c supplied s
  rw [substitute, hcontainers, hsettings, substitutionFault?, withValues]
  cases c.containers.findSome? c.containerFault? with
  | some e => rfl
  | none => cases c.workloadSettings.findSome? c.settingFault? <;> rfl

end

/-! ### Success and failure -/

/-- The fault that resolution reports: names without a declaration come first, then what is wrong
with a parameter, then references, those of containers before those of settings. -/
def Component.fault? (c : Component) (supplied : Bindings) : Option ParameterError :=
  (c.valueFault? supplied).or c.substitutionFault?

/-- A name is declared by some parameter. -/
def Component.Declares (c : Component) (name : Text) : Prop := ∃ p ∈ c.parameters, p.name = name

/-- Supplied values go with a component. -/
structure Component.Resolvable (c : Component) (supplied : Bindings) : Prop where
  /-- Every name that is supplied is declared. -/
  declared : ∀ b ∈ supplied, c.Declares b.1
  /-- A supplied value is of the type of the first declaration of its name. -/
  typed : ∀ p, c.declaration? p.name = some p →
    ∀ v, supplied.value? p.name = some v → p.type.admits v = true
  /-- A required first declaration without a supplied value has a default. -/
  provided : ∀ p, c.declaration? p.name = some p → p.required = true →
    supplied.value? p.name = none → p.default ≠ .null
  /-- What the environment variables of the containers refer to is declared. -/
  envReferences : ∀ k ∈ c.containers, ∀ e ∈ k.env,
    ∀ name, e.fromParam = some name → name ≠ [] → c.Declares name
  /-- What the settings refer to is declared. -/
  settingReferences : ∀ s ∈ c.workloadSettings,
    ∀ name, s.fromParam = some name → name ≠ [] → c.Declares name

lemma Component.declares_iff {c : Component} {name : Text} :
    c.Declares name ↔ (c.declaration? name).isSome = true := by
  simp [Declares, declaration?]

lemma reference?_eq_some_iff {reference : Option Text} {name : Text} :
    reference? reference = some name ↔ reference = some name ∧ name ≠ [] := by
  match reference with
  | none | some [] | some (_ :: _) => simp [reference?]; try grind

/-- A parameter is all right if its value is of its type, and is there where it is required. -/
lemma Parameter.fault?_eq_none_iff {supplied : Bindings} {p : Parameter} :
    p.fault? supplied = none ↔
      (∀ v, supplied.value? p.name = some v → p.type.admits v = true) ∧
      (p.required = true → supplied.value? p.name = none → p.default ≠ .null) := by
  unfold fault?
  cases supplied.value? p.name with
  | some v => simp
  | none => simp [← Value.isNull_iff]

/-- A reference is all right if it is empty, or to a declared name. -/
lemma Component.referenceFault?_eq_none_iff {c : Component} {owner : Owner}
    {reference : Option Text} :
    c.referenceFault? owner reference = none ↔
      ∀ name, reference = some name → name ≠ [] → c.Declares name := by
  simp only [declares_iff, ← and_imp, ← reference?_eq_some_iff]
  unfold referenceFault?
  cases reference? reference <;> simp [Option.isSome_iff_ne_none]

/-- A component has no fault if it can be resolved with the supplied values. -/
theorem Component.fault?_eq_none_iff {c : Component} {supplied : Bindings} :
    c.fault? supplied = none ↔ c.Resolvable supplied := by
  have hvalues : c.valueFault? supplied = none ↔
      (∀ b ∈ supplied, c.Declares b.1) ∧
        ∀ p, c.declaration? p.name = some p → p.fault? supplied = none := by
    simp only [valueFault?, Option.or_eq_none_iff, unknownFault?_eq_none, declares_iff,
      ← Option.isSome_iff_exists, List.findSome?_eq_none_iff, Parameter.mem_firsts_iff,
      declaration?]
  have hreferences : c.substitutionFault? = none ↔
      (∀ k ∈ c.containers, ∀ e ∈ k.env,
        ∀ name, e.fromParam = some name → name ≠ [] → c.Declares name) ∧
      ∀ s ∈ c.workloadSettings,
        ∀ name, s.fromParam = some name → name ≠ [] → c.Declares name := by
    simp only [substitutionFault?, containerFault?, settingFault?, Option.or_eq_none_iff,
      List.findSome?_eq_none_iff, referenceFault?_eq_none_iff]
  rw [fault?, Option.or_eq_none_iff, hvalues, hreferences]
  simp only [Parameter.fault?_eq_none_iff]
  constructor
  · rintro ⟨⟨hdeclared, hp⟩, henv, hsetting⟩
    exact ⟨hdeclared, fun p h => (hp p h).1, fun p h => (hp p h).2, henv, hsetting⟩
  · rintro ⟨hdeclared, htyped, hprovided, henv, hsetting⟩
    exact ⟨⟨hdeclared, fun p h => ⟨htyped p h, hprovided p h⟩⟩, henv, hsetting⟩

/-- A component is resolved unless it has a fault. -/
lemma Component.resolve_eq {c : Component} {supplied : Bindings}
    (hplain : ∀ name, (c.effectiveValue supplied name).IsPlain Json.IsShort) :
    c.resolve supplied = unlessFault ((c.fault? supplied).map .parameter)
      (c.withValues (c.effectiveValue supplied)) := by
  rw [resolve, effectiveValues_eq, mapError_unlessFault, fault?]
  cases c.valueFault? supplied with
  | some e => rfl
  | none =>
    simp only [Option.map_none, unlessFault_none, ok_bind, Option.none_or]
    exact substitute_bindings hplain

/-- Resolution succeeds exactly when the supplied values go with the component. It then only puts
effective values in the place of references, and otherwise it reports the first fault. -/
theorem Component.resolve_iff_resolvable (c : Component) (supplied : Bindings)
    (hdefault : ∀ p ∈ c.parameters, p.default.IsPlain Json.IsShort)
    (hvalue : ∀ b ∈ supplied, b.2.IsPlain Json.IsShort) :
    (c.Resolvable supplied →
      c.resolve supplied = .ok (c.withValues (c.effectiveValue supplied))) ∧
    (¬ c.Resolvable supplied →
      ∃ e, c.fault? supplied = some e ∧ c.resolve supplied = .error (.parameter e)) := by
  have hresolve := resolve_eq (effectiveValue_isPlain trivial hdefault hvalue)
  rw [← fault?_eq_none_iff, hresolve]
  cases c.fault? supplied <;> simp

/-- A component that declares a parameter twice and refers to it twice. -/
def Component.redeclared : Component where
  parameters :=
    [{ name := "debug", type := .boolean, required := true }, { name := "debug", type := .string }]
  containers :=
    [{ name := "main", image := "nginx", env := [{ name := "DEBUG", fromParam := some "debug" }] }]
  workloadSettings := [{ name := "verbose", type := .boolean, fromParam := some "debug" }]

/-- Two declarations of one name do not keep a component from being resolved. -/
theorem Component.resolve_redeclared :
    (∀ p ∈ redeclared.parameters, p.default.IsPlain Json.IsShort) ∧
    (∀ b ∈ [(("debug" : Text), Value.bool true)], b.2.IsPlain Json.IsShort) ∧
    redeclared.resolve [("debug", .bool true)] = .ok { redeclared with
      containers :=
        [{ name := "main", image := "nginx", env := [{ name := "DEBUG", value := some "true" }] }]
      workloadSettings := [{ name := "verbose", type := .boolean, default := .bool true }] } := by
  have hdefault : ∀ p ∈ redeclared.parameters, p.default.IsPlain Json.IsShort := by
    intro p hp
    refine ⟨.null, ?_, trivial⟩
    simp only [redeclared, List.mem_cons, List.not_mem_nil, or_false] at hp
    rcases hp with rfl | rfl <;> rfl
  have hvalue : ∀ b ∈ [(("debug" : Text), Value.bool true)], b.2.IsPlain Json.IsShort := by
    intro b hb
    rw [List.mem_singleton] at hb
    exact ⟨.bool true, by rw [hb]; rfl, trivial⟩
  have hresolvable : redeclared.Resolvable [("debug", .bool true)] := by
    -- Every supplied name is declared, and so is every name that is referred to.
    have hknown : redeclared.unknownFault? [("debug", .bool true)] = none := by
      rw [unknownFault?_eq_none]
      intro b hb
      rw [List.mem_singleton] at hb
      exact ⟨_, by rw [hb]; rfl⟩
    rw [← fault?_eq_none_iff, fault?, valueFault?, hknown]
    rfl
  refine ⟨hdefault, hvalue, ?_⟩
  rw [(resolve_iff_resolvable _ _ hdefault hvalue).1 hresolvable]
  rfl

end Schematic
