import Schematic.Proofs.Component.Agreement
import Schematic.Proofs.Json.StrictData
import Schematic.Proofs.Pod.Unicode
import Schematic.Session

/-!
# Components that are resolved and reloaded

Resolution changes a component without checking it again. That the result is a component which can
be written and read back is an invariant: what takes the place of a reference is a default of the
component, or a value that a parameter admits, or a text that one of them is written as. So it does
not matter whether a component is resolved first and then reloaded, or the other way round.
-/

namespace Schematic

namespace Json

/-- That data is portable holds of the words of a component. -/
lemma holdsOfWords_isPortable : HoldsOfWords IsPortable where
  null := ⟨⟨trivial, trivial, trivial⟩, trivial⟩
  bool _ := ⟨⟨trivial, trivial, trivial⟩, trivial⟩
  int32 n := ⟨⟨isShort_int32 n, trivial, trivial⟩, trivial⟩
  array _ := ⟨⟨trivial, trivial, trivial⟩, trivial⟩
  object es h := ⟨⟨trivial, trivial, holdsOfWords_isUnicode.object es h⟩, h.1⟩
  word s := ⟨⟨trivial, trivial, Text.isUnicode_ofString s⟩, trivial⟩

end Json

open Json (IsWithinLimits IsPortable holdsOfWords_isPortable)

/-- A value is within the limits of documents. Of collections nothing is asked, since no parameter
admits them. -/
def Value.IsWithinLimits : Value → Prop
  | .int n => (Json.int n).IsWithinLimits
  | .float x => (Json.float x).IsWithinLimits
  | .text t => (Json.text t).IsWithinLimits
  | .null | .bool _ | .bytes _ | .date _ | .dateTime _ | .list _ | .tuple _ | .set _ | .map _ =>
    True

/-- A value that is admitted is plain data. -/
lemma ParameterType.isPlain_of_admits {type : ParameterType} {v : Value} (h : type.admits v = true)
    (hv : v.IsWithinLimits) : v.IsPlain IsPortable := by
  cases v with
  | null => exact ⟨.null, rfl, holdsOfWords_isPortable.null⟩
  | bool b => exact ⟨.bool b, rfl, holdsOfWords_isPortable.bool b⟩
  | int n => exact ⟨.int n, rfl, hv, trivial⟩
  | float x => exact ⟨.float x, rfl, hv, trivial⟩
  | text t => exact ⟨.text t, rfl, hv, trivial⟩
  | _ => cases type <;> cases h

/-! ### Reading -/

namespace Component

variable {c : Component} {t : Text} {j : Json}

/-- A component that is read from portable data is portable. -/
lemma isPortable_of_read {d : Dialect} (hj : j.Every IsPortable)
    (h : Component.read d j.toValue = .valid c) :
    c.toValue.IsPlain IsPortable := by
  have hkeeps := keeps_read holdsOfWords_isPortable d j.toValue ⟨j, rfl, hj⟩
  rw [h] at hkeeps
  exact hkeeps

lemma isPortable_of_ofText (hread : Json.read t = .ok j) (hlimits : j.Every IsWithinLimits)
    (h : ofText t = .ok c) :
    c.toValue.IsPlain IsPortable := by
  have hnames := Json.every_of_read Json.holdsOfSpelled_hasDistinctNames hread
  exact isPortable_of_read (Json.every_isPortable hlimits hnames) ((ofText_eq_ok_iff hread).mp h)

/-- A component that is checked as JSON is portable within the limits of its document. -/
lemma isPortable_of_ofJson (hread : Json.Strict.read t = .ok j) (hlimits : j.Every IsWithinLimits)
    (h : ofJson t = .ok c) : c.toValue.IsPlain IsPortable := by
  have hnames := Json.Strict.hasDistinctNames_of_read hread
  obtain ⟨j', hread', hc⟩ := exists_of_ofJson h
  cases hread.symm.trans hread'
  exact isPortable_of_read (Json.every_isPortable hlimits hnames) hc

/-! ### Reloading -/

/-- A portable component is reloaded as what it is. -/
lemma reload_json (h : c.toValue.IsPlain IsPortable) : c.reload "json" = .ok c := by
  obtain ⟨es, hc, hes⟩ := exists_object_of_isPlain h
  have hregular : (Json.object es).Every Json.IsRegular :=
    Json.Every.imp (fun _ h => h.isRegular) _ hes
  have hnames : (Json.object es).Every Json.HasUnicodeNames :=
    Json.Every.imp (fun _ h => h.isUnicode.hasUnicodeNames) _ hes
  have hformat : Format.ofName? "json" = some .json := rfl
  have hdump : c.dump "json" = .ok (Json.render Json.indented (.object es)) :=
    dump_eq hformat hc hregular hnames
  rw [reload, hdump]
  change (ofText _).mapError _ = _
  rw [ofText_of_read (Json.read_render Json.Style.isPlain_indented hregular) hc]
  rfl

end Component

/-! ### Resolving -/

/-- With plain values in the place of its reference a setting stays plain. -/
lemma WorkloadSetting.isPlain_withValues {p : Json → Prop} (hp : Json.HoldsOfWords p)
    {values : Text → Value} (hvalues : ∀ name, (values name).IsPlain p) {s : WorkloadSetting}
    (h : s.toValue.IsPlain p) :
    (s.withValues values).toValue.IsPlain p := by
  rw [withValues]
  split
  · exact h
  · obtain ⟨hname, hdescription, -, -⟩ := (isPlain_iff hp).mp h
    exact (isPlain_iff hp).mpr ⟨hname, hdescription, hvalues _, by simp⟩

/-- The text that a portable value is written as has bytes. -/
lemma Value.isPortable_rendering {v : Value} (h : v.IsPlain IsPortable) :
    ∀ t ∈ v.rendering, (Json.text t).IsPortable := by
  have htext : ∀ t, v = .text t → t.IsUnicode := by
    rintro t rfl
    exact (isPlain_text_iff.mp h).isUnicode
  intro t ht
  exact ⟨⟨trivial, trivial, isUnicode_rendering htext t ht⟩, trivial⟩

namespace Component

variable {c : Component} {supplied : Bindings}

/-- A portable component stays so with portable values in the place of references. -/
lemma isPortable_withValues (hc : c.toValue.IsPlain IsPortable) {values : Text → Value}
    (hvalues : ∀ name, (values name).IsPlain IsPortable) :
    (c.withValues values).toValue.IsPlain IsPortable := by
  have hp := holdsOfWords_isPortable
  obtain ⟨hworkload, hos, harch, hparameters, hcontainers, hsettings⟩ := (isPlain_iff hp).mp hc
  refine (isPlain_iff hp).mpr ⟨hworkload, hos, harch, hparameters, ?_, ?_⟩
  · intro k hk
    obtain ⟨k, hmem, rfl⟩ := List.mem_map.mp hk
    exact k.isPlain_withValues hp (fun name => Value.isPortable_rendering (hvalues name))
      (hcontainers k hmem)
  · intro s hs
    obtain ⟨s, hmem, rfl⟩ := List.mem_map.mp hs
    exact s.isPlain_withValues hp hvalues (hsettings s hmem)

/-- The effective values of a portable component are portable if nothing is wrong with the supplied
values. -/
lemma isPortable_effectiveValue (hc : c.toValue.IsPlain IsPortable)
    (hsupplied : ∀ b ∈ supplied, b.2.IsWithinLimits) (hfault : c.valueFault? supplied = none)
    (name : Text) :
    (c.effectiveValue supplied name).IsPlain IsPortable := by
  rw [valueFault?, Option.or_eq_none_iff, unknownFault?_eq_none,
    List.findSome?_eq_none_iff] at hfault
  obtain ⟨hdeclared, htyped⟩ := hfault
  cases hvalue : supplied.value? name with
  | some v =>
    -- what is supplied under a name was admitted by the first declaration of this name
    have hmem : (name, v) ∈ supplied := Bindings.mem_of_value? hvalue
    obtain ⟨q, hq⟩ := hdeclared (name, v) hmem
    obtain ⟨hfirst, rfl⟩ := mem_firsts_of_declaration? hq
    have hadmits : q.type.admits v = true :=
      (Parameter.fault?_eq_none_iff.mp (htyped q hfirst)).1 v hvalue
    rw [effectiveValue, hvalue]
    exact q.type.isPlain_of_admits hadmits (hsupplied _ hmem)
  | none =>
    have hdefault : (c.effectiveValue [] name).IsPlain IsPortable :=
      effectiveValue_isPlain_of_toValue holdsOfWords_isPortable hc (List.forall_mem_nil _) name
    rw [effectiveValue, hvalue]
    exact hdefault

/-- A portable component is resolved to a portable one, or the supplied values are refused. -/
lemma resolve_cases (hc : c.toValue.IsPlain IsPortable)
    (hsupplied : ∀ b ∈ supplied, b.2.IsWithinLimits) :
    (∃ r, c.resolve supplied = .ok r ∧ r.toValue.IsPlain IsPortable) ∨
      ∃ e, c.resolve supplied = .error (.parameter e) := by
  cases hfault : c.valueFault? supplied with
  | some e =>
    right
    exact ⟨e, by rw [resolve, effectiveValues_eq, hfault]; rfl⟩
  | none =>
    have hvalues := isPortable_effectiveValue hc hsupplied hfault
    have hshort (name : Text) : (c.effectiveValue supplied name).IsPlain Json.IsShort := by
      obtain ⟨j, hj, hportable⟩ := hvalues name
      exact ⟨j, hj, Json.Every.imp (fun _ h => h.isShort) j hportable⟩
    rw [resolve_eq hshort]
    cases c.fault? supplied with
    | some e =>
      right
      exact ⟨e, rfl⟩
    | none =>
      left
      exact ⟨_, rfl, isPortable_withValues hc hvalues⟩

/-! ### Runs -/

/-- The components that are reached from JSON documents within the limits, when they are resolved
against values within the limits and reloaded, in any order and any number of times. -/
inductive Reached : Component → Prop
  | text {t : Text} {j : Json} {c : Component} :
      Json.read t = .ok j → j.Every IsWithinLimits → ofText t = .ok c → Reached c
  /-- By the strict grammar. -/
  | json {t : Text} {j : Json} {c : Component} :
      Json.Strict.read t = .ok j → j.Every IsWithinLimits → ofJson t = .ok c → Reached c
  | resolve {c r : Component} {supplied : Bindings} :
      Reached c → (∀ b ∈ supplied, b.2.IsWithinLimits) → c.resolve supplied = .ok r → Reached r
  | reload {c r : Component} : Reached c → c.reload "json" = .ok r → Reached r

/-- Every component that is reached is portable. -/
lemma Reached.isPortable (h : c.Reached) : c.toValue.IsPlain IsPortable := by
  induction h with
  | text hread hlimits hc => exact isPortable_of_ofText hread hlimits hc
  | json hread hlimits hc => exact isPortable_of_ofJson hread hlimits hc
  | resolve _ hsupplied hr ih =>
    rcases resolve_cases ih hsupplied with ⟨r, hr', hportable⟩ | ⟨e, he⟩
    · cases hr.symm.trans hr'
      exact hportable
    · cases hr.symm.trans he
  | reload _ hr ih =>
    cases hr.symm.trans (reload_json ih)
    exact ih

/-- A portable component is reached from the document that it is written as. -/
lemma Reached.of_isPortable (h : c.toValue.IsPlain IsPortable) : c.Reached := by
  obtain ⟨es, hc, hes⟩ := exists_object_of_isPlain h
  have hlimits : (Json.object es).Every IsWithinLimits :=
    Json.Every.imp (fun _ h => h.toIsWithinLimits) _ hes
  have hregular : (Json.object es).Every Json.IsRegular :=
    Json.Every.imp (fun _ h => h.isRegular) _ hes
  have hread := Json.read_render Json.Style.isPlain_indented hregular
  exact .text hread hlimits (ofText_of_read hread hc)

/-- A component that is reached is reloaded as an equal one. The two are resolved alike: either both
refuse the supplied values for the same reason, or what the reloaded one is resolved to is also had
by reloading what the first one is resolved to. -/
theorem reload_resolve (h : c.Reached) :
    ∃ c', c.reload "json" = .ok c' ∧ c'.same c = true ∧
      ∀ supplied : Bindings, (∀ b ∈ supplied, b.2.IsWithinLimits) →
        (∃ r r', c.resolve supplied = .ok r ∧ r.reload "json" = .ok r' ∧
          c'.resolve supplied = .ok r') ∨
        ∃ e, c.resolve supplied = .error (.parameter e) ∧
          c'.resolve supplied = .error (.parameter e) := by
  have hc := h.isPortable
  refine ⟨c, reload_json hc, c.same_refl, ?_⟩
  intro supplied hsupplied
  rcases resolve_cases hc hsupplied with ⟨r, hr, hportable⟩ | ⟨e, he⟩
  · exact .inl ⟨r, r, hr, reload_json hportable, hr⟩
  · exact .inr ⟨e, he, he⟩

/-- A component whose container and whose setting refer to a parameter. -/
def switched : Component where
  parameters := [{ name := "debug", type := .boolean, required := true }]
  containers :=
    [{ name := "web", image := "nginx", env := [{ name := "DEBUG", fromParam := some "debug" }] }]
  workloadSettings := [{ name := "verbose", type := .boolean, fromParam := some "debug" }]

/-- A truth value takes the place of the references to a parameter, before or after the component is
reloaded. -/
theorem reload_resolve_switched :
    let supplied : Bindings := [("debug", .bool true)]
    switched.Reached ∧ (∀ b ∈ supplied, b.2.IsWithinLimits) ∧
      ∃ c' r r', switched.reload "json" = .ok c' ∧ switched.resolve supplied = .ok r ∧
        r.reload "json" = .ok r' ∧ c'.resolve supplied = .ok r' := by
  intro supplied
  have hreached : switched.Reached := by
    have hp := holdsOfWords_isPortable
    have hnull : Value.null.IsPlain IsPortable := ⟨.null, rfl, hp.null⟩
    apply Reached.of_isPortable
    simp [switched, isPlain_iff hp, Parameter.isPlain_iff hp, Container.isPlain_iff hp,
      Env.isPlain_iff hp, Resources.isPlain_toValue_usual hp, WorkloadSetting.isPlain_iff hp,
      hp.word, hnull]
  have hsupplied : ∀ b ∈ supplied, b.2.IsWithinLimits := List.forall_mem_singleton.mpr trivial
  obtain ⟨c', hc', -, hresolve⟩ := reload_resolve hreached
  rcases hresolve supplied hsupplied with ⟨r, r', hr, hr', hc⟩ | ⟨e, he, -⟩
  · exact ⟨hreached, hsupplied, c', r, r', hc', hr, hr', hc⟩
  · have hknown : switched.unknownNames supplied = [] := by
      simp [unknownNames, switched, supplied]
    rw [resolve, effectiveValues, hknown] at he
    cases he

end Component

end Schematic
