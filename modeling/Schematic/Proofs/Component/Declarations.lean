import Mathlib.Data.List.Nodup
import Mathlib.Logic.Relation
import Schematic.Proofs.Component.Resolved
import Schematic.Proofs.Text.Order

/-!
# What does not matter for resolution

Of several declarations of a name only the first one counts, and of the supplied values only what is
bound to which name. So a component is resolved alike, or refused for the same reason, when values
are supplied in another order and when declarations of names that are declared before come, go or
change.
-/

namespace Schematic

/-! ### The order of supplied values -/

namespace Bindings

variable {supplied reordered : Bindings} {name : Text}

/-- If each name comes once, a value is found under the name that it is bound to. -/
lemma value?_eq_some_iff (hnames : (supplied.map Prod.fst).Nodup) {v : Value} :
    supplied.value? name = some v ↔ (name, v) ∈ supplied := by
  refine ⟨mem_of_value?, fun hmem => ?_⟩
  have hfound : (supplied.find? fun b => b.1 == name).isSome := by
    rw [List.find?_isSome]
    exact ⟨(name, v), hmem, beq_self_eq_true name⟩
  obtain ⟨b, hb⟩ := Option.isSome_iff_exists.mp hfound
  have hname : b.1 = name := by simpa using List.find?_some hb
  obtain rfl := List.inj_on_of_nodup_map hnames (List.mem_of_find?_eq_some hb) hmem hname
  rw [value?, hb]
  rfl

/-- The order does not matter where each name is bound once. -/
lemma value?_perm (hnames : (supplied.map Prod.fst).Nodup) (hperm : supplied.Perm reordered)
    (name : Text) :
    supplied.value? name = reordered.value? name := by
  ext v
  rw [value?_eq_some_iff hnames, value?_eq_some_iff ((hperm.map Prod.fst).nodup_iff.mp hnames),
    hperm.mem_iff]

end Bindings

namespace Parameter

/-! ### Declarations after the first one -/

/-- One list of declarations comes from another one by a change to a declaration whose name is
declared before it: it is taken away, put in, or replaced by another declaration of the name. -/
inductive Redeclares : List Parameter → List Parameter → Prop
  | remove (before after : List Parameter) {p : Parameter} :
      p.name ∈ before.map name → Redeclares (before ++ p :: after) (before ++ after)
  | insert (before after : List Parameter) {p : Parameter} :
      p.name ∈ before.map name → Redeclares (before ++ after) (before ++ p :: after)
  | replace (before after : List Parameter) {p q : Parameter} :
      p.name ∈ before.map name → q.name = p.name →
        Redeclares (before ++ p :: after) (before ++ q :: after)

variable {ps qs : List Parameter}

/-- The first declarations of some names are the first ones of all that have these names. -/
lemma filter_firsts (p : Text → Bool) (ps : List Parameter) :
    (firsts ps).filter (fun q => p q.name) = firsts (ps.filter fun q => p q.name) := by
  induction ps with
  | nil => rfl
  | cons q ps ih =>
    rw [firsts, List.filter_cons, List.filter_cons]
    cases hq : p q.name with
    | true =>
      rw [if_pos rfl, if_pos rfl, firsts, ← ih, List.filter_filter, List.filter_filter]
      simp only [Bool.and_comm]
    | false =>
      have hother (r : Parameter) : (p r.name && r.name != q.name) = p r.name := by
        by_cases hr : r.name = q.name
        · simp [hr, hq]
        · simp [hr]
      rw [if_neg Bool.false_ne_true, if_neg Bool.false_ne_true, ← ih, List.filter_filter]
      simp only [hother]

/-- A declaration of a name that is declared before is none of the first ones. -/
lemma firsts_append_cons {before : List Parameter} {p : Parameter} (after : List Parameter)
    (h : p.name ∈ before.map name) : firsts (before ++ p :: after) = firsts (before ++ after) := by
  induction before with
  | nil => cases h
  | cons q before ih =>
    rw [List.cons_append, List.cons_append, firsts, firsts]
    by_cases hmem : p.name ∈ before.map name
    · rw [ih hmem]
    · -- The only declaration of the name before this one is the first, which leaves this one out.
      have hname : p.name = q.name := (List.mem_cons.mp h).resolve_right hmem
      have hfilter := filter_firsts (· != q.name)
      rw [hfilter, hfilter]
      simp [hname]

/-- A declaration that comes, goes or changes behind the first one of its name is not the first. -/
lemma Redeclares.firsts_eq (h : Redeclares ps qs) : firsts ps = firsts qs := by
  cases h with
  | remove before after hname => exact firsts_append_cons after hname
  | insert before after hname => exact (firsts_append_cons after hname).symm
  | replace before after hname heq =>
    rw [firsts_append_cons after hname, firsts_append_cons after (heq ▸ hname)]

/-- Any number of such changes leaves the first declarations as they are. -/
lemma firsts_eq_of_redeclares (h : Relation.ReflTransGen Redeclares ps qs) :
    firsts ps = firsts qs := by
  induction h with
  | refl => rfl
  | tail _ hstep ih => exact ih.trans hstep.firsts_eq

/-- The names of the first declarations are the names of all declarations without repetitions, in
the order in which they come. -/
lemma map_name_firsts (ps : List Parameter) : (firsts ps).map name = (ps.map name).eraseDups := by
  match ps with
  | [] => rfl
  | p :: ps =>
    have hfilter : ((ps.filter fun q => q.name != p.name).map name)
        = (ps.map name).filter fun n => !n == p.name := by
      rw [List.filter_map]
      rfl
    rw [firsts, List.map_cons, List.map_cons, List.eraseDups_cons, filter_firsts (· != p.name),
      map_name_firsts, hfilter]
termination_by ps.length
decreasing_by
  exact Nat.lt_succ_of_le (List.length_filter_le _ ps)

end Parameter

namespace Component

variable {c d : Component} {supplied reordered : Bindings}

/-- Which supplied names are unknown depends on the first declarations only. -/
lemma unknownNames_eq (hfirsts : Parameter.firsts d.parameters = Parameter.firsts c.parameters)
    (hperm : supplied.Perm reordered) : d.unknownNames reordered = c.unknownNames supplied := by
  have hdeclared (name : Text) : (d.parameters.any (·.name == name))
      = c.parameters.any (·.name == name) := by
    rw [← List.isSome_find?, ← List.isSome_find?, ← Parameter.find?_firsts, hfirsts,
      Parameter.find?_firsts]
  simp only [unknownNames, hdeclared]
  exact Text.mergeSort_eq_of_perm ((hperm.symm.map Prod.fst).filter _)

/-- The effective values depend on the first declarations, and on which name is bound to what. -/
lemma effectiveValues_eq_of_firsts
    (hfirsts : Parameter.firsts d.parameters = Parameter.firsts c.parameters)
    (hnames : (supplied.map Prod.fst).Nodup) (hperm : supplied.Perm reordered) :
    d.effectiveValues reordered = c.effectiveValues supplied := by
  have heffective (p : Parameter) : p.effective reordered = p.effective supplied := by
    rw [Parameter.effective, Parameter.effective, Bindings.value?_perm hnames hperm]
  rw [effectiveValues, effectiveValues, unknownNames_eq hfirsts hperm, hfirsts]
  simp only [heffective]

/-- Values are put into the containers and the settings, whatever the parameters are. -/
lemma substitute_withParameters (c : Component) (ps : List Parameter) (values : Bindings) :
    ({ c with parameters := ps } : Component).substitute values
      = (c.substitute values).map fun r => { r with parameters := ps } := by
  rw [substitute, substitute]
  cases c.containers.mapM (Container.resolve values) with
  | error e => rfl
  | ok containers => cases c.workloadSettings.mapM (WorkloadSetting.resolve values) <;> rfl

/-- The order of supplied values and all declarations but the first ones of their names are inert:
the effective values are the same, or the reason why there are none, and so are the containers and
settings that come out, or the reason why there are none. There is one effective value for each
name, in the order of the first declarations. -/
theorem resolve_inert {ps : List Parameter}
    (hps : Relation.ReflTransGen Parameter.Redeclares c.parameters ps)
    (hnames : (supplied.map Prod.fst).Nodup) (hperm : supplied.Perm reordered) :
    ({ c with parameters := ps } : Component).effectiveValues reordered
        = c.effectiveValues supplied ∧
      ({ c with parameters := ps } : Component).resolve reordered
        = (c.resolve supplied).map (fun r => { r with parameters := ps }) ∧
      ∀ values, c.effectiveValues supplied = .ok values →
        values.map Prod.fst = (c.parameters.map (·.name)).eraseDups := by
  have hfirsts : Parameter.firsts ps = Parameter.firsts c.parameters :=
    (Parameter.firsts_eq_of_redeclares hps).symm
  have hvalues : ({ c with parameters := ps } : Component).effectiveValues reordered
      = c.effectiveValues supplied :=
    effectiveValues_eq_of_firsts hfirsts hnames hperm
  refine ⟨hvalues, ?_, ?_⟩
  · rw [resolve, resolve, hvalues]
    cases c.effectiveValues supplied with
    | error e => rfl
    | ok values => exact c.substitute_withParameters ps values
  · intro values hok
    rw [effectiveValues_eq_of_ok hok, bindings, List.map_map]
    exact Parameter.map_name_firsts c.parameters

/-- A component that declares one of its two parameters twice, and refers to both. -/
def repeated : Component where
  parameters := [
    { name := "debug", type := .boolean, required := true }, { name := "mode", type := .string },
    { name := "debug", type := .string }]
  containers :=
    [{ name := "web", image := "nginx", env := [{ name := "DEBUG", fromParam := some "debug" }] }]
  workloadSettings := [{ name := "pace", type := .string, fromParam := some "mode" }]

/-- The second declaration of one parameter goes, one of the other parameter comes, and the values
are supplied the other way round. -/
theorem resolve_inert_repeated :
    let ps : List Parameter := [
      { name := "debug", type := .boolean, required := true }, { name := "mode", type := .string },
      { name := "mode", type := .number, required := true }]
    let supplied : Bindings := [("mode", .text "fast"), ("debug", .bool true)]
    let reordered : Bindings := [("debug", .bool true), ("mode", .text "fast")]
    Relation.ReflTransGen Parameter.Redeclares repeated.parameters ps ∧
      (supplied.map Prod.fst).Nodup ∧ supplied.Perm reordered ∧
      ({ repeated with parameters := ps } : Component).effectiveValues reordered
        = .ok [("debug", .bool true), ("mode", .text "fast")] ∧
      ({ repeated with parameters := ps } : Component).resolve reordered = .ok
        { parameters := ps
          containers := [
            { name := "web", image := "nginx", env := [{ name := "DEBUG", value := some "true" }] }]
          workloadSettings := [{ name := "pace", type := .string, default := .text "fast" }] } := by
  intro ps supplied reordered
  have hps : Relation.ReflTransGen Parameter.Redeclares repeated.parameters ps := by
    -- The second declaration of a name is removed, and another one is put in its place.
    have hremove : Parameter.Redeclares repeated.parameters (repeated.parameters.take 2) :=
      .remove (repeated.parameters.take 2) [] (by decide)
    have hinsert : Parameter.Redeclares (repeated.parameters.take 2) ps :=
      .insert (repeated.parameters.take 2) [] (by decide)
    exact .tail (.single hremove) hinsert
  have hnames : (supplied.map Prod.fst).Nodup := by decide
  have hperm : supplied.Perm reordered := .swap _ _ []
  have hvalues : repeated.effectiveValues supplied
      = .ok [("debug", .bool true), ("mode", .text "fast")] := by
    have hknown : repeated.unknownNames supplied = [] := by
      simp [unknownNames, repeated, supplied]
    rw [effectiveValues, hknown]
    rfl
  obtain ⟨heffective, hresolve, -⟩ := resolve_inert hps hnames hperm
  refine ⟨hps, hnames, hperm, heffective.trans hvalues, ?_⟩
  rw [hresolve, resolve, hvalues]
  rfl

end Component

end Schematic
