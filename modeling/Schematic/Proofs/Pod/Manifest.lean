import Mathlib.Data.List.Forall2
import Mathlib.Data.List.Sort
import Schematic.Pod.Manifest
import Schematic.Proofs.Json.Every
import Schematic.Proofs.Text.Order
import Schematic.Proofs.Value.Same

/-!
# What a manifest tells of a component

A manifest holds objects with increasing names, arrays, texts and integers of 32 bits, and nothing
else. For such data sameness is equality, and writing a pod loses nothing. So the manifests of two
components are the same exactly when their containers agree, place by place, in the parts that a pod
takes from them.
-/

namespace Schematic

namespace Json

/-! ### Manifests as data -/

/-- One name stands properly before another one. -/
def NameBefore (name other : Text) : Prop := name.le other = true ∧ name ≠ other

instance (name other : Text) : Decidable (NameBefore name other) :=
  inferInstanceAs (Decidable (_ ∧ _))

/-- A part of a manifest: a text, an integer of 32 bits, an array, or an object with increasing
names. -/
def IsManifestPart : Json → Prop
  | .text _ | .array _ => True
  | .int n => -2 ^ 31 ≤ n ∧ n < 2 ^ 31
  | .object entries => (entries.map Prod.fst).Pairwise NameBefore
  | .null | .bool _ | .float _ => False

/-- Entries with increasing names are equal when each list has as many as the other one and one is
among the other. -/
lemma entries_eq_of_subset {es fs : List (Text × Json)}
    (hes : (es.map Prod.fst).Pairwise NameBefore) (hfs : (fs.map Prod.fst).Pairwise NameBefore)
    (hlen : es.length = fs.length) (hsub : es ⊆ fs) : es = fs := by
  rw [List.pairwise_map] at hes hfs
  have hnodup : es.Nodup := hes.imp fun h hef => h.2 (congrArg Prod.fst hef)
  have hperm : es.Perm fs :=
    (List.subperm_of_subset hnodup hsub).perm_of_length_le hlen.ge
  refine hperm.eq_of_pairwise (fun e f _ _ hef hfe => ?_) hes hfs
  exact absurd (Text.le_antisymm hef.1 hfe.1) hef.2

/-- Each entry of an object has its counterpart in one that is the same. -/
lemma allEntries_toEntries {es fs : List (Text × Json)}
    (h : Value.allEntries (toEntries es) (toEntries fs) = true) :
    ∀ e ∈ es, ∃ f ∈ fs, e.1 = f.1 ∧ e.2.toValue.same f.2.toValue = true := by
  -- An entry is looked for among all entries of the other object.
  have hany : ∀ (k : Text) (j : Json),
      ((toEntries fs).any fun f => (Value.text k).same f.1 && j.toValue.same f.2) = true →
        ∃ f ∈ fs, k = f.1 ∧ j.toValue.same f.2.toValue = true := by
    intro k j hf
    clear h
    induction fs with
    | nil => simp [toEntries] at hf
    | cons f fs ih =>
      simp only [toEntries, List.any_cons, Bool.or_eq_true, Bool.and_eq_true] at hf
      rcases hf with ⟨hk, hj⟩ | hf
      · refine ⟨f, List.mem_cons_self, ?_, hj⟩
        simpa [Value.same, Value.sameScalar, Value.integer?] using hk
      · obtain ⟨g, hg, hrest⟩ := ih hf
        exact ⟨g, List.mem_cons_of_mem _ hg, hrest⟩
  induction es with
  | nil => simp
  | cons e es ih =>
    simp only [toEntries, Value.allEntries, Bool.and_eq_true] at h
    intro e' he'
    rcases List.mem_cons.mp he' with rfl | he'
    · exact hany _ _ h.1
    · exact ih h.2 e' he'

@[simp] lemma length_toEntries (es : List (Text × Json)) : (toEntries es).length = es.length := by
  induction es with
  | nil => rfl
  | cons e es ih => simp [toEntries, ih]

mutual

/-- On manifests sameness is equality. -/
theorem eq_of_same (j k : Json) (hj : j.Every IsManifestPart) (hk : k.Every IsManifestPart)
    (h : j.toValue.same k.toValue = true) : j = k := by
  match j with
  | .null | .bool _ | .float _ => exact absurd hj.self (by simp [IsManifestPart])
  | .int m =>
    cases k <;> simp_all [toValue, Value.same, Value.sameScalar, Value.integer?, Every,
      IsManifestPart]
  | .text t =>
    cases k <;> simp_all [toValue, Value.same, Value.sameScalar, Value.integer?, Every,
      IsManifestPart]
  | .array js =>
    cases k with
    | array ks =>
      simp only [toValue, Value.same] at h
      rw [eq_of_sameList js ks hj.2 hk.2 h]
    | _ => simp [toValue, Value.same] at h
  | .object es =>
    cases k with
    | object fs =>
      simp only [toValue, Value.same, Bool.and_eq_true, beq_iff_eq, length_toEntries] at h
      have hsub := subset_of_allEntries es fs hj.2 hk.2 (allEntries_toEntries h.2)
      rw [entries_eq_of_subset hj.1 hk.1 h.1 hsub]
    | _ => simp [toValue, Value.same] at h

/-- Lists of manifest parts that are the same are equal. -/
theorem eq_of_sameList (js ks : List Json) (hjs : EveryItem IsManifestPart js)
    (hks : EveryItem IsManifestPart ks)
    (h : Value.sameList (toValues js) (toValues ks) = true) : js = ks := by
  match js, ks with
  | [], [] => rfl
  | j :: js, k :: ks =>
    simp only [toValues, Value.sameList, Bool.and_eq_true] at h
    rw [eq_of_same j k hjs.1 hks.1 h.1, eq_of_sameList js ks hjs.2 hks.2 h.2]
  | [], _ :: _ | _ :: _, [] => simp [toValues, Value.sameList] at h

/-- The entries of one of two objects that are the same are entries of the other. -/
theorem subset_of_allEntries (es fs : List (Text × Json)) (hes : EveryEntry IsManifestPart es)
    (hfs : EveryEntry IsManifestPart fs)
    (h : ∀ e ∈ es, ∃ f ∈ fs, e.1 = f.1 ∧ e.2.toValue.same f.2.toValue = true) : es ⊆ fs := by
  match es with
  | [] => exact List.nil_subset fs
  | (name, j) :: es =>
    obtain ⟨f, hf, hname, hsame⟩ := h (name, j) List.mem_cons_self
    have hj : j = f.2 := eq_of_same j f.2 hes.1 (everyEntry_iff.mp hfs f hf) hsame
    refine List.cons_subset.mpr ⟨?_, ?_⟩
    · rw [show (name, j) = f from Prod.ext hname hj]
      exact hf
    · exact subset_of_allEntries es fs hes.2 hfs fun e he => h e (List.mem_cons_of_mem _ he)

end

/-! ### Fields that are set -/

lemma mem_names_of_mem_filterMap (fields : List (Text × Option Json)) (e : Text × Json)
    (h : e ∈ fields.filterMap fun f => f.2.map ((f.1, ·))) : e.1 ∈ fields.map Prod.fst := by
  obtain ⟨f, hf, he⟩ := List.mem_filterMap.mp h
  obtain ⟨j, _, rfl⟩ := Option.map_eq_some_iff.mp he
  exact List.mem_map_of_mem hf

/-- Leaving out the fields that are not set loses nothing, since no name comes twice. -/
lemma ofFields_injective {fs gs : List (Text × Option Json)} (h : ofFields fs = ofFields gs)
    (hnames : fs.map Prod.fst = gs.map Prod.fst) (hnodup : (fs.map Prod.fst).Nodup) : fs = gs := by
  simp only [ofFields, object.injEq] at h
  induction fs generalizing gs with
  | nil => simpa using hnames.symm
  | cons f fs ih =>
    cases gs with
    | nil => simp at hnames
    | cons g gs =>
      obtain ⟨name, x⟩ := f
      obtain ⟨name', y⟩ := g
      simp only [List.map_cons, List.cons.injEq, List.nodup_cons] at hnames hnodup
      obtain ⟨rfl, hnames⟩ := hnames
      obtain ⟨hfresh, hnodup⟩ := hnodup
      cases x with
      | none =>
        cases y with
        | none =>
          rw [ih hnames hnodup (by simpa using h)]
        | some k =>
          -- The name would come from a later field, but no later field has it.
          have hmem := mem_names_of_mem_filterMap fs (name, k) (by simp_all)
          exact absurd hmem hfresh
      | some j =>
        cases y with
        | none =>
          -- Here it is the other list in which the name would come again.
          have hmem := mem_names_of_mem_filterMap gs (name, j) (by
            simp only [List.filterMap_cons, Option.map_some, Option.map_none] at h
            exact h ▸ List.mem_cons_self)
          exact absurd (hnames ▸ hmem) hfresh
        | some k =>
          simp only [List.filterMap_cons, Option.map_some, List.cons.injEq, Prod.mk.injEq,
            true_and] at h
          rw [h.1, ih hnames hnodup h.2]

/-- An object has a property throughout if it has it itself and its fields have it throughout. -/
lemma every_ofFields {p : Json → Prop} {fields : List (Text × Option Json)}
    (hp : p (ofFields fields)) (h : ∀ f ∈ fields, ∀ j, f.2 = some j → j.Every p) :
    (ofFields fields).Every p := by
  refine ⟨hp, everyEntry_iff.mpr fun e he => ?_⟩
  obtain ⟨f, hf, he⟩ := List.mem_filterMap.mp he
  obtain ⟨j, hj, rfl⟩ := Option.map_eq_some_iff.mp he
  exact h f hf j hj

/-- Increasing names stay so when some fields are left out. -/
lemma isManifestPart_ofFields {fields : List (Text × Option Json)}
    (h : (fields.map Prod.fst).Pairwise NameBefore) : IsManifestPart (ofFields fields) := by
  simp only [IsManifestPart, ofFields, List.pairwise_map] at h ⊢
  refine h.filterMap _ fun f g hfg e he e' he' => ?_
  obtain ⟨j, _, rfl⟩ := Option.map_eq_some_iff.mp he
  obtain ⟨k, _, rfl⟩ := Option.map_eq_some_iff.mp he'
  exact hfg

lemma ofList_injective {α : Type} {write : α → Json} (h : Function.Injective write) :
    Function.Injective (ofList write) := by
  intro as bs hab
  exact List.map_injective_iff.mpr h (array.inj hab)

lemma every_ofList {p : Json → Prop} {α : Type} {write : α → Json} {as : List α}
    (hp : ∀ js, p (.array js)) (h : ∀ a ∈ as, (write a).Every p) : (ofList write as).Every p := by
  refine ⟨hp _, everyItem_iff.mpr fun j hj => ?_⟩
  obtain ⟨a, ha, rfl⟩ := List.mem_map.mp hj
  exact h a ha

lemma ofInt32_injective : Function.Injective ofInt32 := by
  intro m n h
  exact Int32.toInt_inj.mp (int.inj h)

lemma text_injective : Function.Injective Json.text := fun _ _ => text.inj

lemma every_text (t : Text) : (text t).Every IsManifestPart := trivial

lemma every_ofInt32 (n : Int32) : (ofInt32 n).Every IsManifestPart :=
  ⟨n.le_toInt, n.toInt_lt⟩

end Json

open Json (IsManifestPart NameBefore ofFields_injective every_ofFields isManifestPart_ofFields
  ofList_injective every_ofList ofInt32_injective every_ofInt32 every_text text_injective)

/-! ### The parts of a pod -/

/-- Different variables have different manifests. -/
lemma PodEnv.manifest_injective : Function.Injective PodEnv.manifest := by
  intro e f h
  have hfields :=
    ofFields_injective h (by simp) (show (["name", "value"] : List Text).Nodup by decide)
  simp only [List.cons.injEq, Prod.mk.injEq, Option.some.injEq, Json.text.injEq, true_and,
    and_true, (Option.map_injective text_injective).eq_iff] at hfields
  cases e
  cases f
  simp_all

lemma PodEnv.every_manifest (e : PodEnv) : e.manifest.Every IsManifestPart := by
  refine every_ofFields (isManifestPart_ofFields ?_) ?_
  · show (["name", "value"] : List Text).Pairwise NameBefore
    decide
  · simp [every_text]

/-- Different ports have different manifests. -/
lemma PodPort.manifest_injective : Function.Injective PodPort.manifest := by
  intro p q h
  have hfields := ofFields_injective h (by simp)
    (show (["containerPort", "name", "protocol"] : List Text).Nodup by decide)
  simp only [List.cons.injEq, Prod.mk.injEq, Option.some.injEq, Json.text.injEq, true_and,
    and_true, ofInt32_injective.eq_iff] at hfields
  cases p
  cases q
  simp_all

lemma PodPort.every_manifest (p : PodPort) : p.manifest.Every IsManifestPart := by
  refine every_ofFields (isManifestPart_ofFields ?_) ?_
  · show (["containerPort", "name", "protocol"] : List Text).Pairwise NameBefore
    decide
  · simp [every_ofInt32, every_text]

/-- Different headers have different manifests. -/
lemma PodHeader.manifest_injective : Function.Injective PodHeader.manifest := by
  intro g h heq
  have hfields := ofFields_injective heq (by simp)
    (show (["name", "value"] : List Text).Nodup by decide)
  simp only [List.cons.injEq, Prod.mk.injEq, Option.some.injEq, Json.text.injEq, true_and,
    and_true] at hfields
  cases g
  cases h
  simp_all

lemma PodHeader.every_manifest (h : PodHeader) : h.manifest.Every IsManifestPart := by
  refine every_ofFields (isManifestPart_ofFields ?_) ?_
  · show (["name", "value"] : List Text).Pairwise NameBefore
    decide
  · simp [every_text]

/-- Different requests have different manifests. -/
lemma PodRequest.manifest_injective : Function.Injective PodRequest.manifest := by
  intro r s h
  have hfields := ofFields_injective h (by simp)
    (show (["httpHeaders", "path", "port"] : List Text).Nodup by decide)
  simp only [List.cons.injEq, Prod.mk.injEq, Option.some.injEq, Json.text.injEq, true_and,
    and_true, ofInt32_injective.eq_iff,
    (ofList_injective PodHeader.manifest_injective).eq_iff] at hfields
  cases r
  cases s
  simp_all

lemma PodRequest.every_manifest (r : PodRequest) : r.manifest.Every IsManifestPart := by
  refine every_ofFields (isManifestPart_ofFields ?_) ?_
  · show (["httpHeaders", "path", "port"] : List Text).Pairwise NameBefore
    decide
  · simp [every_ofInt32, every_text,
      every_ofList (fun _ => trivial) fun h _ => PodHeader.every_manifest h]

lemma commandManifest_injective : Function.Injective commandManifest := by
  intro c d h
  have hfields := ofFields_injective h (by simp) (show (["command"] : List Text).Nodup by decide)
  simpa [(ofList_injective text_injective).eq_iff] using hfields

/-- A command is made of parts of a manifest. -/
lemma every_commandManifest (command : List Text) :
    (commandManifest command).Every IsManifestPart := by
  refine every_ofFields (isManifestPart_ofFields (List.pairwise_singleton _ _)) ?_
  simp only [List.forall_mem_cons, Option.some.injEq, forall_eq', List.not_mem_nil,
    IsEmpty.forall_iff, implies_true, and_true]
  exact every_ofList (fun _ => trivial) fun t _ => every_text t

lemma socketManifest_injective : Function.Injective socketManifest := by
  intro m n h
  have hfields := ofFields_injective h (by simp) (show (["port"] : List Text).Nodup by decide)
  simpa [ofInt32_injective.eq_iff] using hfields

lemma every_socketManifest (port : Int32) : (socketManifest port).Every IsManifestPart := by
  refine every_ofFields (isManifestPart_ofFields (List.pairwise_singleton _ _)) ?_
  simp [every_ofInt32]

/-- Different probes have different manifests. -/
lemma PodProbe.manifest_injective : Function.Injective PodProbe.manifest := by
  intro p q h
  have hfields := ofFields_injective h (by simp)
    (show (["exec", "failureThreshold", "httpGet", "initialDelaySeconds", "periodSeconds",
      "successThreshold", "tcpSocket", "timeoutSeconds"] : List Text).Nodup by decide)
  simp only [List.cons.injEq, Prod.mk.injEq, Option.some.injEq, true_and, and_true,
    ofInt32_injective.eq_iff, (Option.map_injective commandManifest_injective).eq_iff,
    (Option.map_injective PodRequest.manifest_injective).eq_iff,
    (Option.map_injective socketManifest_injective).eq_iff] at hfields
  cases p
  cases q
  simp_all

lemma PodProbe.every_manifest (p : PodProbe) : p.manifest.Every IsManifestPart := by
  refine every_ofFields (isManifestPart_ofFields ?_) ?_
  · show (["exec", "failureThreshold", "httpGet", "initialDelaySeconds", "periodSeconds",
      "successThreshold", "tcpSocket", "timeoutSeconds"] : List Text).Pairwise NameBefore
    decide
  · simp only [List.forall_mem_cons, Option.map_eq_some_iff, Option.some.injEq,
      forall_eq', every_ofInt32, List.not_mem_nil, IsEmpty.forall_iff, implies_true, and_true,
      true_and, forall_exists_index, and_imp, forall_apply_eq_imp_iff₂]
    exact ⟨fun c _ => every_commandManifest c, fun r _ => r.every_manifest,
      fun n _ => every_socketManifest n⟩

/-- Different requests for resources have different manifests. -/
lemma requestsManifest_inj {cpu memory cpu' memory' : Text}
    (h : requestsManifest cpu memory = requestsManifest cpu' memory') :
    cpu = cpu' ∧ memory = memory' := by
  have houter := ofFields_injective h (by simp) (show (["requests"] : List Text).Nodup by decide)
  simp only [List.cons.injEq, Prod.mk.injEq, Option.some.injEq, true_and, and_true] at houter
  have hinner := ofFields_injective houter (by simp)
    (show (["cpu", "memory"] : List Text).Nodup by decide)
  simpa using hinner

lemma every_requestsManifest (cpu memory : Text) :
    (requestsManifest cpu memory).Every IsManifestPart := by
  refine every_ofFields (isManifestPart_ofFields (List.pairwise_singleton _ _)) ?_
  simp only [List.forall_mem_cons, Option.some.injEq, forall_eq', List.not_mem_nil,
    IsEmpty.forall_iff, implies_true, and_true]
  refine every_ofFields (isManifestPart_ofFields ?_) (by simp [every_text])
  show (["cpu", "memory"] : List Text).Pairwise NameBefore
  decide

/-- Different containers have different manifests. -/
lemma PodContainer.manifest_injective : Function.Injective PodContainer.manifest := by
  intro c d h
  have hfields := ofFields_injective h (by simp)
    (show (["env", "image", "livenessProbe", "name", "ports", "readinessProbe",
      "resources"] : List Text).Nodup by decide)
  simp only [List.cons.injEq, Prod.mk.injEq, Option.some.injEq, Json.text.injEq, true_and,
    and_true, (ofList_injective PodEnv.manifest_injective).eq_iff,
    (ofList_injective PodPort.manifest_injective).eq_iff,
    (Option.map_injective PodProbe.manifest_injective).eq_iff] at hfields
  have hrequests := requestsManifest_inj hfields.2.2.2.2.2.2
  cases c
  cases d
  simp_all

lemma PodContainer.every_manifest (c : PodContainer) : c.manifest.Every IsManifestPart := by
  refine every_ofFields (isManifestPart_ofFields ?_) ?_
  · show (["env", "image", "livenessProbe", "name", "ports", "readinessProbe",
      "resources"] : List Text).Pairwise NameBefore
    decide
  · simp only [List.forall_mem_cons, Option.map_eq_some_iff, Option.some.injEq,
      forall_eq', List.not_mem_nil, IsEmpty.forall_iff, implies_true, and_true,
      forall_exists_index, and_imp, forall_apply_eq_imp_iff₂]
    exact ⟨every_ofList (fun _ => trivial) fun e _ => e.every_manifest, trivial,
      fun p _ => p.every_manifest, trivial,
      every_ofList (fun _ => trivial) fun p _ => p.every_manifest,
      fun p _ => p.every_manifest, every_requestsManifest _ _⟩

/-- Writing a pod loses nothing. -/
lemma PodSpec.manifest_injective : Function.Injective PodSpec.manifest := by
  intro p q h
  simp only [PodSpec.manifest, List.cons.injEq, Prod.mk.injEq, and_true, true_and,
    (ofList_injective PodContainer.manifest_injective).eq_iff] at h
  cases p
  cases q
  simp_all

/-- A manifest holds texts, integers of 32 bits, arrays and objects with increasing names only. -/
lemma PodSpec.every_manifest (p : PodSpec) : (Json.object p.manifest).Every IsManifestPart :=
  ⟨List.pairwise_singleton _ _,
    every_ofList (fun _ => trivial) fun c _ => c.every_manifest, trivial⟩

/-- Two pods are equal when their manifests are the same data. -/
lemma PodSpec.manifest_same_iff (p q : PodSpec) :
    (Json.object p.manifest).toValue.same (Json.object q.manifest).toValue = true ↔ p = q := by
  constructor
  · intro h
    exact manifest_injective
      (Json.object.inj (Json.eq_of_same _ _ p.every_manifest q.every_manifest h))
  · rintro rfl
    exact Value.same_refl _

/-! ### What a pod takes from a component -/

lemma PortProtocol.token_injective : Function.Injective PortProtocol.token := by
  intro p q
  cases p <;> cases q <;> decide

lemma HttpHeader.toPod_injective : Function.Injective HttpHeader.toPod := by
  intro g h heq
  cases g
  cases h
  simpa [HttpHeader.toPod] using heq

/-- Requests that differ make different requests of a pod. -/
lemma HttpGet.toPod_injective : Function.Injective HttpGet.toPod := by
  intro g h heq
  cases g
  cases h
  simp only [HttpGet.toPod, PodRequest.mk.injEq,
    (List.map_injective_iff.mpr HttpHeader.toPod_injective).eq_iff] at heq
  simp [heq]

/-- Probes that differ make different probes of a pod. -/
lemma HealthProbe.toPod_injective : Function.Injective HealthProbe.toPod := by
  have hexec : Function.Injective Exec.command := fun e f h => by
    cases e
    cases f
    simp_all
  have hsocket : Function.Injective TcpSocket.port := fun s t h => by
    cases s
    cases t
    simp_all
  intro p q h
  cases p
  cases q
  simp only [HealthProbe.toPod, PodProbe.mk.injEq, (Option.map_injective hexec).eq_iff,
    (Option.map_injective hsocket).eq_iff,
    (Option.map_injective HttpGet.toPod_injective).eq_iff] at h
  simp [h]

/-- Two containers agree in all that a pod takes from them: not in graphics processors, paths and
references. -/
structure Container.AgreesInPod (c d : Container) : Prop where
  name : c.name = d.name
  image : c.image = d.image
  cpu : c.resources.cpu.required = d.resources.cpu.required
  memory : c.resources.memory.required = d.resources.memory.required
  env : (c.env.map fun e => (e.name, e.value)) = d.env.map fun e => (e.name, e.value)
  ports : (c.ports.map fun p => (p.name, p.containerPort, p.protocol))
    = d.ports.map fun p => (p.name, p.containerPort, p.protocol)
  livenessProbe : c.livenessProbe = d.livenessProbe
  readinessProbe : c.readinessProbe = d.readinessProbe

/-- Variables make the same ones of a pod if they have the same names and values. -/
lemma map_env_toPod_eq_iff {es fs : List Env} :
    es.map Env.toPod = fs.map Env.toPod
      ↔ (es.map fun e => (e.name, e.value)) = fs.map fun e => (e.name, e.value) := by
  have hpod : Env.toPod = (fun e : Text × Option Text => PodEnv.mk e.1 e.2) ∘
      fun e => (e.name, e.value) := rfl
  have hinj : Function.Injective fun e : Text × Option Text => PodEnv.mk e.1 e.2 :=
    fun e f h => by simpa [Prod.ext_iff] using h
  rw [hpod, ← List.map_map, ← List.map_map, (List.map_injective_iff.mpr hinj).eq_iff]

/-- Ports make the same ones of a pod if they have the same names, numbers and protocols. -/
lemma map_port_toPod_eq_iff {ps qs : List Port} :
    ps.map Port.toPod = qs.map Port.toPod
      ↔ (ps.map fun p => (p.name, p.containerPort, p.protocol))
        = qs.map fun p => (p.name, p.containerPort, p.protocol) := by
  let write (p : Text × Int32 × PortProtocol) : PodPort := ⟨p.2.1, p.1, p.2.2.token⟩
  have hpod : Port.toPod = write ∘ fun p => (p.name, p.containerPort, p.protocol) := rfl
  have hinj : Function.Injective write := fun p q h => by
    simp only [write, PodPort.mk.injEq, PortProtocol.token_injective.eq_iff] at h
    simp [Prod.ext_iff, h]
  rw [hpod, ← List.map_map, ← List.map_map, (List.map_injective_iff.mpr hinj).eq_iff]

/-- Two containers make the same one of a pod if they agree in all that a pod shows of them. -/
lemma Container.toPod_eq_iff (c d : Container) : c.toPod = d.toPod ↔ c.AgreesInPod d := by
  simp only [Container.toPod, PodContainer.mk.injEq, map_env_toPod_eq_iff, map_port_toPod_eq_iff,
    (Option.map_injective HealthProbe.toPod_injective).eq_iff]
  constructor
  · rintro ⟨henv, himage, hlive, hname, hports, hready, hcpu, hmemory⟩
    exact ⟨hname, himage, hcpu, hmemory, henv, hports, hlive, hready⟩
  · rintro ⟨hname, himage, hcpu, hmemory, henv, hports, hlive, hready⟩
    exact ⟨henv, himage, hlive, hname, hports, hready, hcpu, hmemory⟩

/-- The pods of two components, and likewise their manifests, are the same exactly when the
containers agree place by place in what a pod takes from them. -/
theorem Component.manifest_same_iff_agreesInPod (c d : Component) :
    ((Json.object c.toPodSpec.manifest).toValue.same (Json.object d.toPodSpec.manifest).toValue
        = true ↔ List.Forall₂ Container.AgreesInPod c.containers d.containers)
      ∧ (c.toPodSpec = d.toPodSpec
        ↔ List.Forall₂ Container.AgreesInPod c.containers d.containers) := by
  have hspec : c.toPodSpec = d.toPodSpec
      ↔ List.Forall₂ Container.AgreesInPod c.containers d.containers := by
    simp only [toPodSpec, PodSpec.mk.injEq, ← List.forall₂_eq_eq_eq, List.forall₂_map_left_iff,
      List.forall₂_map_right_iff, Container.toPod_eq_iff]
  exact ⟨(PodSpec.manifest_same_iff _ _).trans hspec, hspec⟩

end Schematic
