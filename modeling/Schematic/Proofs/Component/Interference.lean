import Schematic.Proofs.Pod.Congruence

/-!
# What the value of a parameter reaches

A component that is resolved twice, against values that differ under one name only, gives two
components that are alike but for the places that refer to this name: the values of environment
variables and the defaults of settings. A manifest shows the variables alone. So where no variable
refers to the name, the manifests are equal.
-/

namespace Schematic

/-- Three lists go together place by place. -/
inductive PlaceByPlace {α β γ : Type} (R : α → β → γ → Prop) : List α → List β → List γ → Prop
  | nil : PlaceByPlace R [] [] []
  | cons {a : α} {b : β} {c : γ} {as : List α} {bs : List β} {cs : List γ} :
      R a b c → PlaceByPlace R as bs cs → PlaceByPlace R (a :: as) (b :: bs) (c :: cs)

namespace PlaceByPlace

variable {α β γ δ : Type} {R : α → β → γ → Prop}

/-- Two images of a list are related place by place if the functions are. -/
lemma of_map {f : α → β} {g : α → γ} {as : List α} (h : ∀ a ∈ as, R a (f a) (g a)) :
    PlaceByPlace R as (as.map f) (as.map g) := by
  induction as with
  | nil => exact .nil
  | cons a as ih =>
    rw [List.forall_mem_cons] at h
    exact .cons h.1 (ih h.2)

/-- Two lists are told apart by nothing that does not tell their items apart. -/
lemma map_eq_map {f : β → δ} {g : γ → δ} {as : List α} {bs : List β} {cs : List γ}
    (h : PlaceByPlace R as bs cs) (heq : ∀ a ∈ as, ∀ b c, R a b c → f b = g c) :
    bs.map f = cs.map g := by
  induction h with
  | nil => rfl
  | cons hR _ ih =>
    rw [List.forall_mem_cons] at heq
    rw [List.map_cons, List.map_cons, heq.1 _ _ hR, ih heq.2]

end PlaceByPlace

/-! ### Results that are alike -/

section

variable (name : Text)

/-- Two results of an environment variable are equal, but for their values if the variable refers to
the name. -/
structure Env.AlikeBut (e e₁ e₂ : Env) : Prop where
  value : reference? e.fromParam ≠ some name → e₁.value = e₂.value
  rest : { e₁ with value := none } = { e₂ with value := none }

/-- Two results of a container are equal, but for the values of variables that refer to the name. -/
structure Container.AlikeBut (k k₁ k₂ : Container) : Prop where
  env : PlaceByPlace (Env.AlikeBut name) k.env k₁.env k₂.env
  rest : { k₁ with env := [] } = { k₂ with env := [] }

/-- Two results of a setting are equal, but for their defaults if the setting refers to the name. -/
structure WorkloadSetting.AlikeBut (s s₁ s₂ : WorkloadSetting) : Prop where
  default : reference? s.fromParam ≠ some name → s₁.default = s₂.default
  rest : { s₁ with default := .null } = { s₂ with default := .null }

/-- Two results of a component are equal, but for the values of variables and the defaults of
settings that refer to the name. -/
structure Component.AlikeBut (c c₁ c₂ : Component) : Prop where
  containers : PlaceByPlace (Container.AlikeBut name) c.containers c₁.containers c₂.containers
  workloadSettings : PlaceByPlace (WorkloadSetting.AlikeBut name) c.workloadSettings
    c₁.workloadSettings c₂.workloadSettings
  rest : { c₁ with containers := [], workloadSettings := [] }
    = { c₂ with containers := [], workloadSettings := [] }

end

section

variable {name : Text} {values others : Text → Value}
  (hagree : ∀ other, other ≠ name → values other = others other)
include hagree

/-- With values that agree but for one name, a variable is alike but for that name. -/
lemma Env.alikeBut_withValues (e : Env) :
    e.AlikeBut name (e.withValues values) (e.withValues others) := by
  unfold withValues
  cases hname : reference? e.fromParam with
  | none => exact ⟨fun _ => rfl, rfl⟩
  | some other =>
    refine ⟨fun hne => ?_, rfl⟩
    have hother : other ≠ name := fun heq => hne (by rw [hname, heq])
    simp only [hagree other hother]

lemma Container.alikeBut_withValues (k : Container) :
    k.AlikeBut name (k.withValues values) (k.withValues others) where
  env := .of_map fun e _ => e.alikeBut_withValues hagree
  rest := rfl

/-- With values that agree but for one name, a setting is alike but for that name. -/
lemma WorkloadSetting.alikeBut_withValues (s : WorkloadSetting) :
    s.AlikeBut name (s.withValues values) (s.withValues others) := by
  unfold withValues
  cases hname : reference? s.fromParam with
  | none => exact ⟨fun _ => rfl, rfl⟩
  | some other =>
    refine ⟨fun hne => ?_, rfl⟩
    have hother : other ≠ name := fun heq => hne (by rw [hname, heq])
    simp only [hagree other hother]

lemma Component.alikeBut_withValues (c : Component) :
    c.AlikeBut name (c.withValues values) (c.withValues others) where
  containers := .of_map fun k _ => k.alikeBut_withValues hagree
  workloadSettings := .of_map fun s _ => s.alikeBut_withValues hagree
  rest := rfl

end

/-! ### What a pod shows -/

section

variable {name : Text}

lemma Env.AlikeBut.toPod_eq {e e₁ e₂ : Env} (h : e.AlikeBut name e₁ e₂)
    (hne : reference? e.fromParam ≠ some name) :
    e₁.toPod = e₂.toPod := by
  have hname : e₁.name = e₂.name := (Env.mk.inj h.rest).1
  rw [toPod, toPod, hname, h.value hne]

/-- A container without a reference to the name makes the same pod of both. -/
lemma Container.AlikeBut.toPod_eq {k k₁ k₂ : Container} (h : k.AlikeBut name k₁ k₂)
    (hne : ∀ e ∈ k.env, reference? e.fromParam ≠ some name) : k₁.toPod = k₂.toPod := by
  have henv : k₁.env.map Env.toPod = k₂.env.map Env.toPod :=
    h.env.map_eq_map fun e he _ _ halike => halike.toPod_eq (hne e he)
  have hrest : { k₁.toPod with env := [] } = { k₂.toPod with env := [] } :=
    congrArg Container.toPod h.rest
  have hpod (k : Container) : k.toPod = { k.toPod with env := k.env.map Env.toPod } := rfl
  rw [hpod k₁, hpod k₂, henv]
  exact congrArg (fun pod : PodContainer => { pod with env := k₂.env.map Env.toPod }) hrest

/-- If no variable refers to the name, the pods are equal. -/
lemma Component.AlikeBut.toPodSpec_eq {c c₁ c₂ : Component} (h : c.AlikeBut name c₁ c₂)
    (hrefers : ¬ c.RefersTo name) :
    c₁.toPodSpec = c₂.toPodSpec := by
  apply congrArg PodSpec.mk
  apply h.containers.map_eq_map
  intro k hk k₁ k₂ halike
  exact halike.toPod_eq fun e he hname => hrefers ⟨k, hk, e, he, hname⟩

end

/-! ### Two resolutions -/

namespace Component

variable {c r₁ r₂ : Component} {name : Text} {supplied₁ supplied₂ : Bindings}

lemma effectiveValue_congr {other : Text} (h : supplied₁.value? other = supplied₂.value? other) :
    c.effectiveValue supplied₁ other = c.effectiveValue supplied₂ other := by
  rw [effectiveValue, effectiveValue, h]

/-- The value of a parameter reaches nothing but the references to it. Two resolutions against
values that agree under all other names differ in these places only, and if none of them is in an
environment variable, the manifests are equal. -/
theorem resolve_alikeBut
    (hagree : ∀ other, other ≠ name → supplied₁.value? other = supplied₂.value? other)
    (h₁ : c.resolve supplied₁ = .ok r₁) (h₂ : c.resolve supplied₂ = .ok r₂) :
    c.AlikeBut name r₁ r₂ ∧
      (¬ c.RefersTo name →
        ∃ m, c.podManifest supplied₁ = .ok m ∧ c.podManifest supplied₂ = .ok m) := by
  have halike : c.AlikeBut name r₁ r₂ := by
    rw [resolve_eq_of_ok h₁, resolve_eq_of_ok h₂]
    exact c.alikeBut_withValues fun other hother => effectiveValue_congr (hagree other hother)
  refine ⟨halike, fun hrefers => ⟨r₁.toPodSpec.manifest, podManifest_of_resolve h₁, ?_⟩⟩
  rw [halike.toPodSpec_eq hrefers]
  exact podManifest_of_resolve h₂

/-- A component with two parameters: a variable refers to one of them, a setting to the other. -/
def tuned : Component where
  parameters :=
    [{ name := "mode", type := .string },
      { name := "debug", type := .boolean, default := .bool false }]
  containers :=
    [{ name := "web", image := "nginx", env := [{ name := "MODE", fromParam := some "mode" }] }]
  workloadSettings := [{ name := "verbose", type := .boolean, fromParam := some "debug" }]

/-- What it is resolved to, by the truth value of one parameter. -/
def tunedTo (b : Bool) : Component := { tuned with
  containers :=
    [{ name := "web", image := "nginx", env := [{ name := "MODE", value := some "fast" }] }]
  workloadSettings := [{ name := "verbose", type := .boolean, default := .bool b }] }

/-- A supplied truth value and a default: the settings differ, and the manifests do not. -/
theorem resolve_alikeBut_tuned :
    let supplied₁ : Bindings := [("debug", .bool true), ("mode", .text "fast")]
    let supplied₂ : Bindings := [("mode", .text "fast")]
    (∀ other, other ≠ Text.ofString "debug" → supplied₁.value? other = supplied₂.value? other) ∧
      tuned.resolve supplied₁ = .ok (tunedTo true) ∧ tuned.resolve supplied₂ = .ok (tunedTo false) ∧
        tuned.AlikeBut "debug" (tunedTo true) (tunedTo false) ∧ ¬ tuned.RefersTo "debug" ∧
        ∃ m, tuned.podManifest supplied₁ = .ok m ∧ tuned.podManifest supplied₂ = .ok m := by
  intro supplied₁ supplied₂
  have hagree : ∀ other, other ≠ Text.ofString "debug" →
      supplied₁.value? other = supplied₂.value? other := by
    intro other hother
    have hfirst : (Text.ofString "debug" == other) = false := by simpa using Ne.symm hother
    simp [supplied₁, supplied₂, Bindings.value?, hfirst]
  have hknown₁ : tuned.unknownNames supplied₁ = [] := by
    -- Both lists of values supply declared names only.
    simp [unknownNames, tuned, supplied₁]
  have hknown₂ : tuned.unknownNames supplied₂ = [] := by
    simp [unknownNames, tuned, supplied₂]
  have h₁ : tuned.resolve supplied₁ = .ok (tunedTo true) := by
    rw [resolve, effectiveValues, hknown₁]
    rfl
  have h₂ : tuned.resolve supplied₂ = .ok (tunedTo false) := by
    rw [resolve, effectiveValues, hknown₂]
    rfl
  have hrefers : ¬ tuned.RefersTo "debug" := by
    rintro ⟨k, hk, e, he, hname⟩
    obtain rfl := List.mem_singleton.mp hk
    obtain rfl := List.mem_singleton.mp he
    exact absurd hname (by decide)
  obtain ⟨halike, hmanifest⟩ := resolve_alikeBut hagree h₁ h₂
  exact ⟨hagree, h₁, h₂, halike, hrefers, hmanifest hrefers⟩

end Component

end Schematic
