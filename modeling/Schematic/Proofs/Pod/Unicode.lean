import Schematic.Proofs.Component.Reading
import Schematic.Proofs.Component.Resolution
import Schematic.Proofs.Pod.Manifest

/-!
# What a manifest is made of

A manifest is made of texts of its component and of texts of effective values, and so is the message
that refuses supplied values. So where these texts have bytes, the manifest has, or the message.
-/

namespace Schematic

open Json (ofFields ofInt32 ofList every_ofList)

/-! ### Parts of pods -/

section

variable {p : Json → Prop} (hp : Json.HoldsOfWords p)
include hp

lemma Json.holds_ofInt32 (n : Int32) : (ofInt32 n).Every p := hp.int32 n

/-- Fields that are left out do not matter. -/
lemma Json.every_ofFields_of_names {fields : List (Text × Option Json)}
    (hnames : Text.AreFieldNames (fields.map Prod.fst))
    (h : ∀ f ∈ fields, ∀ j, f.2 = some j → j.Every p) :
    (ofFields fields).Every p := by
  have hsublist : ((fields.filterMap fun f => f.2.map ((f.1, ·))).map Prod.fst).Sublist
      (fields.map Prod.fst) := by
    clear hnames h
    induction fields with
    | nil => exact .slnil
    | cons f fields ih =>
      obtain ⟨name, j⟩ := f
      cases j with
      | none => exact ih.cons name
      | some j => exact ih.cons_cons name
  exact every_ofFields (hp.object _
    ⟨hnames.1.sublist hsublist, fun name hname => hnames.2 _ (hsublist.subset hname)⟩) h

open Json (every_ofFields_of_names)

lemma Env.every_manifest {e : Env} (h : e.toValue.IsPlain p) : e.toPod.manifest.Every p := by
  obtain ⟨hname, hvalue, -⟩ := (isPlain_iff hp).mp h
  refine every_ofFields_of_names hp ?_ ?_
  · show Text.AreFieldNames ["name", "value"]
    decide
  · simpa using ⟨hname, hvalue⟩

lemma Port.every_manifest {q : Port} (h : q.toValue.IsPlain p) : q.toPod.manifest.Every p := by
  refine every_ofFields_of_names hp ?_ ?_
  · show Text.AreFieldNames ["containerPort", "name", "protocol"]
    decide
  · simpa [Json.holds_ofInt32 hp] using ⟨(isPlain_iff hp).mp h, q.protocol.holds_token hp⟩

lemma HttpHeader.every_manifest {g : HttpHeader} (h : g.toValue.IsPlain p) :
    g.toPod.manifest.Every p := by
  refine every_ofFields_of_names hp ?_ ?_
  · show Text.AreFieldNames ["name", "value"]
    decide
  · simpa [toPod, Json.Every] using (isPlain_iff hp).mp h

lemma HttpGet.every_manifest {g : HttpGet} (h : g.toValue.IsPlain p) :
    g.toPod.manifest.Every p := by
  obtain ⟨hpath, hheaders⟩ := (isPlain_iff hp).mp h
  refine every_ofFields_of_names hp ?_ ?_
  · show Text.AreFieldNames ["httpHeaders", "path", "port"]
    decide
  · have hlist : (ofList PodHeader.manifest (g.httpHeaders.map (·.toPod))).Every p :=
      every_ofList hp.array
        (List.forall_mem_map.mpr fun h hh => HttpHeader.every_manifest hp (hheaders h hh))
    simpa [Json.holds_ofInt32 hp] using ⟨hlist, hpath⟩

lemma Exec.every_manifest {e : Exec} (h : e.toValue.IsPlain p) :
    (commandManifest e.command).Every p := by
  refine every_ofFields_of_names hp ?_ ?_
  · show Text.AreFieldNames ["command"]
    decide
  · have hlist : (ofList Json.text e.command).Every p :=
      every_ofList hp.array ((isPlain_iff hp).mp h)
    simpa using hlist

lemma every_socketManifest_of_words (port : Int32) : (socketManifest port).Every p := by
  refine every_ofFields_of_names hp ?_ ?_
  · show Text.AreFieldNames ["port"]
    decide
  · simp [Json.holds_ofInt32 hp]

/-- The manifest of a probe is written with what the probe is. -/
lemma HealthProbe.every_manifest {h : HealthProbe} (hh : h.toValue.IsPlain p) :
    h.toPod.manifest.Every p := by
  obtain ⟨hexec, hget⟩ := (isPlain_iff hp).mp hh
  refine every_ofFields_of_names hp ?_ ?_
  · show Text.AreFieldNames ["exec", "failureThreshold", "httpGet", "initialDelaySeconds",
      "periodSeconds", "successThreshold", "tcpSocket", "timeoutSeconds"]
    decide
  · simp only [toPod, Option.map_map, List.forall_mem_cons, Option.map_eq_some_iff,
      Option.some.injEq, forall_eq', Json.holds_ofInt32 hp, List.not_mem_nil, IsEmpty.forall_iff,
      implies_true, and_true, true_and, forall_exists_index, and_imp, forall_apply_eq_imp_iff₂]
    exact ⟨fun e he => Exec.every_manifest hp (hexec e he),
      fun g hg => HttpGet.every_manifest hp (hget g hg),
      fun s _ => every_socketManifest_of_words hp s.port⟩

lemma every_requestsManifest_of_words {cpu memory : Text} (hcpu : p (.text cpu))
    (hmemory : p (.text memory)) :
    (requestsManifest cpu memory).Every p := by
  have hrequests :
      (ofFields [("cpu", some (.text cpu)), ("memory", some (.text memory))]).Every p := by
    refine every_ofFields_of_names hp ?_ ?_
    · show Text.AreFieldNames ["cpu", "memory"]
      decide
    · simpa using ⟨hcpu, hmemory⟩
  refine every_ofFields_of_names hp ?_ ?_
  · show Text.AreFieldNames ["requests"]
    decide
  · simpa using hrequests

/-- The manifest of a container is written with what the container is. -/
lemma Container.every_manifest {k : Container} (h : k.toValue.IsPlain p) :
    k.toPod.manifest.Every p := by
  obtain ⟨hname, himage, hresources, henv, hports, hliveness, hreadiness⟩ := (isPlain_iff hp).mp h
  obtain ⟨hcpu, hmemory, -⟩ := (Resources.isPlain_iff hp).mp hresources
  have hvariables : (ofList PodEnv.manifest (k.env.map (·.toPod))).Every p :=
    every_ofList hp.array (List.forall_mem_map.mpr fun e he => Env.every_manifest hp (henv e he))
  have hplaces : (ofList PodPort.manifest (k.ports.map (·.toPod))).Every p :=
    every_ofList hp.array (List.forall_mem_map.mpr fun q hq => Port.every_manifest hp (hports q hq))
  have hprobes : ∀ o : Option HealthProbe, (∀ h ∈ o, h.toValue.IsPlain p) →
      ∀ j, (o.map (·.toPod)).map PodProbe.manifest = some j → j.Every p := by
    intro o ho j hj
    rw [Option.map_map, Option.map_eq_some_iff] at hj
    obtain ⟨h, hh, rfl⟩ := hj
    exact HealthProbe.every_manifest hp (ho h hh)
  have hrequests := every_requestsManifest_of_words hp ((Requirement.isPlain_iff hp).mp hcpu)
    ((Requirement.isPlain_iff hp).mp hmemory)
  refine every_ofFields_of_names hp ?_ ?_
  · show Text.AreFieldNames
      ["env", "image", "livenessProbe", "name", "ports", "readinessProbe", "resources"]
    decide
  · simp only [List.forall_mem_cons, Option.some.injEq, forall_eq', List.not_mem_nil,
      IsEmpty.forall_iff, implies_true, and_true]
    exact ⟨hvariables, himage, hprobes _ hliveness, hname, hplaces, hprobes _ hreadiness, hrequests⟩

/-- A property of the texts of a component holds of its manifest. -/
lemma Component.every_manifest {c : Component} (h : ∀ k ∈ c.containers, k.toValue.IsPlain p) :
    (Json.object c.toPodSpec.manifest).Every p := by
  have hcontainers : (ofList PodContainer.manifest (c.containers.map (·.toPod))).Every p :=
    every_ofList hp.array (List.forall_mem_map.mpr fun k hk => Container.every_manifest hp (h k hk))
  refine ⟨hp.object _ ?_, hcontainers, trivial⟩
  show Text.AreFieldNames ["containers"]
  decide

end

/-! ### Effective values -/

section

variable {p : Json → Prop} (hp : Json.HoldsOfWords p) {values : Text → Value}
  (hvalues : ∀ name, ∀ t ∈ (values name).rendering, p (.text t))
include hp hvalues

/-- With plain values in the place of its reference a variable stays plain. -/
lemma Env.isPlain_withValues {e : Env} (h : e.toValue.IsPlain p) :
    (e.withValues values).toValue.IsPlain p := by
  unfold withValues
  split
  · exact h
  · obtain ⟨hname, -, -⟩ := (isPlain_iff hp).mp h
    exact (isPlain_iff hp).mpr ⟨hname, hvalues _, by simp⟩

lemma Container.isPlain_withValues {k : Container} (h : k.toValue.IsPlain p) :
    (k.withValues values).toValue.IsPlain p := by
  obtain ⟨hname, himage, hresources, henv, hrest⟩ := (isPlain_iff hp).mp h
  refine (isPlain_iff hp).mpr ⟨hname, himage, hresources, ?_, hrest⟩
  exact List.forall_mem_map.mpr fun e he => e.isPlain_withValues hp hvalues (henv e he)

end

/-- The text of a value has bytes, since only a text is written as it is. -/
lemma Value.isUnicode_rendering {v : Value} (h : ∀ t, v = .text t → t.IsUnicode) :
    ∀ t ∈ v.rendering, t.IsUnicode := by
  intro t ht
  unfold rendering at ht
  split at ht
  · cases ht
  · cases ht
    exact h _ rfl
  · cases ht
    split <;> exact Text.isUnicode_ofString _
  · obtain ⟨j, -, rfl⟩ := Option.map_eq_some_iff.mp ht
    exact Json.isUnicode_write Json.Style.isUnicode_ascii j (.inl rfl) 0

/-! ### Faults of supplied values -/

lemma Value.isUnicode_kindName (v : Value) : v.kindName.IsUnicode := by
  cases v <;> exact Text.isUnicode_ofString _

section

variable {c : Component} {supplied : Bindings} {e : ParameterError}

/-- The message that refuses a value has bytes if the name of the parameter has. -/
lemma Parameter.isUnicode_of_fault? {q : Parameter} (hname : q.name.IsUnicode)
    (h : q.fault? supplied = some e) :
    e.message.IsUnicode := by
  have hliteral (s : String) : (s : Text).IsUnicode := Text.isUnicode_ofString s
  have htype : q.type.token.IsUnicode := q.type.holds_token Json.holdsOfWords_isUnicode
  unfold fault? at h
  split at h
  · split at h
    · cases h
    · cases h
      exact (((((hliteral _).append hname).append (hliteral _)).append htype).append
        (hliteral _)).append (Value.isUnicode_kindName _)
  · split at h
    · cases h
      exact ((hliteral _).append hname).append (hliteral _)
    · cases h

/-- The message that refuses a name has bytes if the supplied names have. -/
lemma Component.isUnicode_of_unknownFault? (hsupplied : ∀ b ∈ supplied, b.1.IsUnicode)
    (h : c.unknownFault? supplied = some e) : e.message.IsUnicode := by
  unfold unknownFault? at h
  split at h
  · cases h
  · next names _ =>
    cases h
    refine (Text.isUnicode_ofString _).append
      (Text.isUnicode_join (Text.isUnicode_ofString _) fun name hname => ?_)
    rw [unknownNames, List.mem_mergeSort] at hname
    obtain ⟨b, hb, rfl⟩ := List.mem_map.mp (List.mem_of_mem_filter hname)
    exact hsupplied b hb

/-- The message that refuses a reference has bytes if the reference and its owner have. -/
lemma Component.isUnicode_of_referenceFault? {owner : Owner} {reference : Option Text}
    (howner : owner.text.IsUnicode) (hreference : ∀ t ∈ reference, t.IsUnicode)
    (h : c.referenceFault? owner reference = some e) : e.message.IsUnicode := by
  have hliteral (s : String) : (s : Text).IsUnicode := Text.isUnicode_ofString s
  unfold referenceFault? at h
  split at h
  · cases h
  · next name hname =>
    split at h
    · cases h
    · cases h
      exact ((howner.append (hliteral _)).append
        (hreference name (reference?_eq_some_iff.mp hname).1)).append (hliteral _)

/-- The message that refuses supplied values has bytes if the texts of the component and the names
have. -/
lemma Component.isUnicode_of_fault? (hc : c.toValue.IsPlain Json.IsUnicode)
    (hsupplied : ∀ b ∈ supplied, b.1.IsUnicode) (h : c.fault? supplied = some e) :
    e.message.IsUnicode := by
  have hp := Json.holdsOfWords_isUnicode
  have hliteral (s : String) : (s : Text).IsUnicode := Text.isUnicode_ofString s
  obtain ⟨-, -, -, hparameters, hcontainers, hsettings⟩ := (isPlain_iff hp).mp hc
  rw [fault?, valueFault?, substitutionFault?, Option.or_eq_some_iff, Option.or_eq_some_iff,
    Option.or_eq_some_iff] at h
  rcases h with (h | ⟨-, h⟩) | ⟨-, h | ⟨-, h⟩⟩
  · exact isUnicode_of_unknownFault? hsupplied h
  · obtain ⟨q, hq, h⟩ := List.exists_of_findSome?_eq_some h
    have hmem : q ∈ c.parameters := List.mem_of_find?_eq_some (Parameter.mem_firsts_iff.mp hq)
    exact q.isUnicode_of_fault? ((Parameter.isPlain_iff hp).mp (hparameters q hmem)).1 h
  · obtain ⟨k, hk, h⟩ := List.exists_of_findSome?_eq_some h
    obtain ⟨v, hv, h⟩ := List.exists_of_findSome?_eq_some h
    obtain ⟨hname, -, -, henv, -⟩ := (Container.isPlain_iff hp).mp (hcontainers k hk)
    obtain ⟨hvariable, -, hreference⟩ := (Env.isPlain_iff hp).mp (henv v hv)
    refine isUnicode_of_referenceFault? ?_ hreference h
    exact ((((hliteral _).append hvariable).append (hliteral _)).append hname).append (hliteral _)
  · obtain ⟨s, hs, h⟩ := List.exists_of_findSome?_eq_some h
    obtain ⟨hname, -, -, hreference⟩ := (WorkloadSetting.isPlain_iff hp).mp (hsettings s hs)
    refine isUnicode_of_referenceFault? ?_ hreference h
    exact ((hliteral _).append hname).append (hliteral _)

end

/-! ### Manifests -/

/-- The manifest of a component whose references hold the effective values. -/
def Component.filledManifest (c : Component) (supplied : Bindings) : List (Text × Json) :=
  (c.withValues (c.effectiveValue supplied)).toPodSpec.manifest

section

variable {c : Component} {supplied : Bindings}

/-- Effective values that can be written are filled in, unless there is a fault. -/
lemma Component.podManifest_eq
    (hshort : ∀ name, (c.effectiveValue supplied name).IsPlain Json.IsShort) :
    c.podManifest supplied =
      unlessFault ((c.fault? supplied).map .parameter) (c.filledManifest supplied) := by
  rw [podManifest, resolve_eq hshort]
  cases c.fault? supplied <;> rfl

/-- The effective values have bytes if the component and the supplied values have. -/
lemma Component.effectiveValue_isPlain_of_toValue {p : Json → Prop} (hp : Json.HoldsOfWords p)
    (hc : c.toValue.IsPlain p) (hsupplied : ∀ b ∈ supplied, b.2.IsPlain p) (name : Text) :
    (c.effectiveValue supplied name).IsPlain p := by
  obtain ⟨-, -, -, hparameters, -, -⟩ := (isPlain_iff hp).mp hc
  exact effectiveValue_isPlain hp.null
    (fun q hq => ((Parameter.isPlain_iff hp).mp (hparameters q hq)).2.2) hsupplied name

/-- The manifest has bytes if the texts of the component and of the supplied values have. -/
lemma Component.every_isUnicode_filledManifest (hc : c.toValue.IsPlain Json.IsUnicode)
    (hsupplied : ∀ b ∈ supplied, b.2.IsPlain Json.IsUnicode) :
    (Json.object (c.filledManifest supplied)).Every Json.IsUnicode := by
  have hp := Json.holdsOfWords_isUnicode
  have hvalues (name t : Text) (ht : t ∈ (c.effectiveValue supplied name).rendering) :
      t.IsUnicode := by
    refine Value.isUnicode_rendering (fun u hu => ?_) t ht
    have hplain := effectiveValue_isPlain_of_toValue hp hc hsupplied name
    rw [hu] at hplain
    exact Value.isPlain_text_iff.mp hplain
  obtain ⟨-, -, -, -, hcontainers, -⟩ := (isPlain_iff hp).mp hc
  refine every_manifest hp (List.forall_mem_map.mpr fun k hk => ?_)
  exact k.isPlain_withValues hp hvalues (hcontainers k hk)

/-- The name of the file has bytes if the texts of the component have. -/
lemma Component.isUnicode_manifestFilename (hc : c.toValue.IsPlain Json.IsUnicode) :
    c.manifestFilename.IsUnicode := by
  have hp := Json.holdsOfWords_isUnicode
  obtain ⟨-, -, -, -, hcontainers, -⟩ := (isPlain_iff hp).mp hc
  refine ((Text.isUnicode_ofString _).append ?_).append (Text.isUnicode_ofString _)
  split
  · exact Text.isUnicode_ofString _
  · next first rest hfirst =>
    exact ((Container.isPlain_iff hp).mp (hcontainers first (hfirst ▸ List.mem_cons_self))).1

end

end Schematic
