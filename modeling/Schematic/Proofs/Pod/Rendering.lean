import Schematic.Proofs.Component.Plain
import Schematic.Proofs.Json.RoundTrip
import Schematic.Proofs.Pod.Manifest
import Schematic.Proofs.Yaml.Document
import Schematic.Proofs.Yaml.Kept

/-!
# Rendered manifests are read back

Only texts in a manifest are free, and both formats write texts so that they are read back, wherever
they stand left of the line's width. A manifest never reaches that far, since it is nested seven
levels deep at most.
-/

namespace Schematic

namespace Json

/-- A manifest can be written and read back. -/
lemma IsManifestPart.isRegular {j : Json} (h : j.IsManifestPart) : j.IsRegular := by
  cases j with
  | null | bool _ | float _ => exact absurd h id
  | text _ | array _ => exact ⟨trivial, trivial, trivial⟩
  | int n =>
    have hn : (Int32.ofInt n).toInt = n := Int32.toInt_ofInt_of_le h.1 h.2
    exact ⟨hn ▸ isShort_int32 (Int32.ofInt n), trivial, trivial⟩
  | object es => exact ⟨trivial, trivial, h.imp fun hbefore => hbefore.2⟩

/-- Plain data is nested some levels deep at most, and the names in it are narrow. -/
structure IsLow (levels : Nat) (j : Json) : Prop where
  depth_le : j.depth ≤ levels
  narrow : j.Every HasNarrowNames

variable {levels : Nat}

lemma IsLow.mono {j : Json} {more : Nat} (h : j.IsLow levels) (hmore : levels ≤ more) :
    j.IsLow more :=
  ⟨Nat.le_trans h.depth_le hmore, h.narrow⟩

lemma isLow_text (t : Text) : (text t).IsLow levels := ⟨Nat.zero_le _, trivial⟩

lemma isLow_ofInt32 (n : Int32) : (ofInt32 n).IsLow levels := ⟨Nat.zero_le _, trivial⟩

/-- A list is as deep as its deepest item. -/
lemma depthItems_le {js : List Json} (h : ∀ j ∈ js, j.depth ≤ levels) : depthItems js ≤ levels := by
  induction js with
  | nil => exact Nat.zero_le _
  | cons j js ih =>
    rw [List.forall_mem_cons] at h
    exact Nat.max_le.mpr ⟨h.1, ih h.2⟩

/-- An object is as deep as its deepest entry. -/
lemma depthEntries_le {es : List (Text × Json)} (h : ∀ e ∈ es, e.2.depth ≤ levels) :
    depthEntries es ≤ levels := by
  induction es with
  | nil => exact Nat.zero_le _
  | cons e es ih =>
    rw [List.forall_mem_cons] at h
    exact Nat.max_le.mpr ⟨h.1, ih h.2⟩

/-- A list adds one level to its items. -/
lemma isLow_ofList {α : Type} {write : α → Json} {as : List α}
    (h : ∀ a ∈ as, (write a).IsLow levels) :
    (ofList write as).IsLow (levels + 1) := by
  constructor
  · refine Nat.succ_le_succ (depthItems_le fun j hj => ?_)
    obtain ⟨a, ha, rfl⟩ := List.mem_map.mp hj
    exact (h a ha).depth_le
  · exact every_ofList (fun _ => trivial) fun a ha => (h a ha).narrow

/-- An object with distinct names adds one level to its fields. -/
lemma isLow_ofFields {fields : List (Text × Option Json)}
    (hnames : Text.AreFieldNames (fields.map Prod.fst))
    (h : ∀ f ∈ fields, ∀ j, f.2 = some j → j.IsLow levels) :
    (ofFields fields).IsLow (levels + 1) := by
  constructor
  · refine Nat.succ_le_succ (depthEntries_le fun e he => ?_)
    obtain ⟨f, hf, he⟩ := List.mem_filterMap.mp he
    obtain ⟨j, hj, rfl⟩ := Option.map_eq_some_iff.mp he
    exact (h f hf j hj).depth_le
  · refine every_ofFields (fun e he hsimple => ?_) fun f hf j hj => (h f hf j hj).narrow
    have hlength := (hnames.2 e.1 (mem_names_of_mem_filterMap fields e he)).2.2
    have hwidth := Yaml.keyWidth_le hsimple
    omega

end Json

open Json (IsLow isLow_text isLow_ofInt32 isLow_ofList isLow_ofFields IsManifestPart ofList)

/-! ### The depth of a pod -/

lemma PodEnv.isLow_manifest (e : PodEnv) : e.manifest.IsLow 1 := by
  refine isLow_ofFields ?_ ?_
  · show Text.AreFieldNames ["name", "value"]
    decide
  · simp [isLow_text]

lemma PodPort.isLow_manifest (p : PodPort) : p.manifest.IsLow 1 := by
  refine isLow_ofFields ?_ ?_
  · show Text.AreFieldNames ["containerPort", "name", "protocol"]
    decide
  · simp [isLow_text, isLow_ofInt32]

lemma PodHeader.isLow_manifest (h : PodHeader) : h.manifest.IsLow 1 := by
  refine isLow_ofFields ?_ ?_
  · show Text.AreFieldNames ["name", "value"]
    decide
  · simp [isLow_text]

lemma PodRequest.isLow_manifest (r : PodRequest) : r.manifest.IsLow 3 := by
  refine isLow_ofFields ?_ ?_
  · show Text.AreFieldNames ["httpHeaders", "path", "port"]
    decide
  · simp [isLow_text, isLow_ofInt32, isLow_ofList fun h _ => PodHeader.isLow_manifest h]

lemma isLow_commandManifest (command : List Text) : (commandManifest command).IsLow 3 := by
  refine isLow_ofFields ?_ ?_
  · show Text.AreFieldNames ["command"]
    decide
  · have hwords : (ofList Json.text command).IsLow 2 := isLow_ofList fun t _ => isLow_text t
    simpa using hwords

lemma isLow_socketManifest (port : Int32) : (socketManifest port).IsLow 3 := by
  refine isLow_ofFields ?_ ?_
  · show Text.AreFieldNames ["port"]
    decide
  · simp [isLow_ofInt32]

lemma PodProbe.isLow_manifest (p : PodProbe) : p.manifest.IsLow 4 := by
  refine isLow_ofFields ?_ ?_
  · show Text.AreFieldNames ["exec", "failureThreshold", "httpGet", "initialDelaySeconds",
      "periodSeconds", "successThreshold", "tcpSocket", "timeoutSeconds"]
    decide
  · simp only [List.forall_mem_cons, Option.map_eq_some_iff, Option.some.injEq,
      forall_eq', isLow_ofInt32, List.not_mem_nil, IsEmpty.forall_iff, implies_true, and_true,
      true_and, forall_exists_index, and_imp, forall_apply_eq_imp_iff₂]
    exact ⟨fun c _ => isLow_commandManifest c, fun r _ => r.isLow_manifest,
      fun port _ => isLow_socketManifest port⟩

lemma isLow_requestsManifest (cpu memory : Text) : (requestsManifest cpu memory).IsLow 4 := by
  refine isLow_ofFields ?_ ?_
  · show Text.AreFieldNames ["requests"]
    decide
  · simp only [List.forall_mem_singleton, Option.some.injEq, forall_eq']
    refine isLow_ofFields ?_ ?_
    · show Text.AreFieldNames ["cpu", "memory"]
      decide
    · simp [isLow_text]

lemma PodContainer.isLow_manifest (c : PodContainer) : c.manifest.IsLow 5 := by
  refine isLow_ofFields ?_ ?_
  · show Text.AreFieldNames
      ["env", "image", "livenessProbe", "name", "ports", "readinessProbe", "resources"]
    decide
  · simp only [List.forall_mem_cons, Option.map_eq_some_iff, Option.some.injEq,
      forall_eq', List.not_mem_nil, IsEmpty.forall_iff, implies_true, and_true, isLow_text,
      forall_exists_index, and_imp, forall_apply_eq_imp_iff₂, true_and]
    exact ⟨isLow_ofList fun e _ => e.isLow_manifest.mono (by decide), fun p _ => p.isLow_manifest,
      isLow_ofList fun p _ => p.isLow_manifest.mono (by decide), fun p _ => p.isLow_manifest,
      isLow_requestsManifest _ _⟩

/-- A manifest has seven levels at most, and short numbers only. -/
lemma PodSpec.isLow_manifest (p : PodSpec) : (Json.object p.manifest).IsLow 7 := by
  have hcontainers := isLow_ofList fun c (_ : c ∈ p.containers) => c.isLow_manifest
  change (Json.ofFields [("containers", some (ofList PodContainer.manifest p.containers))]).IsLow 7
  refine isLow_ofFields ?_ ?_
  · show Text.AreFieldNames ["containers"]
    decide
  · simpa using hcontainers

/-! ### Both formats -/

lemma PodSpec.isRegular_manifest (p : PodSpec) : (Json.object p.manifest).Every Json.IsRegular :=
  Json.Every.imp (fun _ h => h.isRegular) _ p.every_manifest

lemma Text.IsUnicode.of_isPage {t : Text} (h : Yaml.IsPage t) : t.IsUnicode := by
  obtain ⟨cs, rfl, -⟩ := h.exists_chars
  exact isUnicode_ofChars cs

/-- The YAML document of a pod has bytes, whatever its texts are. -/
lemma PodSpec.isUnicode_yaml (p : PodSpec) : (Format.yaml.text p.manifest).IsUnicode :=
  .of_isPage (Yaml.isPage_render _ p.isRegular_manifest)

/-- The JSON document of a pod is read back. -/
lemma PodSpec.json_read_manifest (p : PodSpec) :
    Json.read (Format.json.text p.manifest) = .ok (.object p.manifest) :=
  Json.read_render Json.Style.isPlain_indented p.isRegular_manifest

/-- The YAML document of a pod is read back. -/
lemma PodSpec.yaml_read_manifest (p : PodSpec) :
    Yaml.read (Format.yaml.text p.manifest) = .ok (Json.object p.manifest).toValue := by
  have hdistinct := Json.Every.imp (fun _ h => h.hasDistinctNames) _ p.isRegular_manifest
  have hdepth := p.isLow_manifest.depth_le
  have hkept : (Json.object p.manifest).IsKept 0 0 :=
    Json.isKept_of_depth _ (by rw [Yaml.lineWidth]; omega) (by rw [Yaml.lineWidth]; omega)
  have hseen : Value.ofEntries (Yaml.seenEntries 0 (Json.toEntries p.manifest))
    = (Json.object p.manifest).toValue := Json.seen_eq_self _ hdistinct hkept
  rw [← hseen]
  exact Yaml.read_render _ _ _ p.isRegular_manifest p.isLow_manifest.narrow

namespace Component

/-- A pod is rendered from its manifest in the format. -/
lemma renderPod_eq {c : Component} {supplied : Bindings} {m : List (Text × Json)} {name : Text}
    {format : Format} (h : c.podManifest supplied = .ok m)
    (hformat : Format.ofName? name = some format) :
    c.renderPod supplied name = .ok (format.text m) := by
  rw [renderPod, h, hformat]
  rfl

/-- Where a component has a manifest, it is rendered in both formats, and either document is read
back as the manifest, which is made of texts, integers of 32 bits, arrays and objects. -/
theorem renderPod_roundTrip (c : Component) (supplied : Bindings) (m : List (Text × Json))
    (h : c.podManifest supplied = .ok m) :
    (∃ t, c.renderPod supplied "yaml" = .ok t ∧ Yaml.read t = .ok (Json.object m).toValue) ∧
      (∃ t, c.renderPod supplied "json" = .ok t ∧ Json.read t = .ok (.object m)) ∧
      (Json.object m).Every IsManifestPart := by
  obtain ⟨resolved, _, hm⟩ := exists_of_bind_eq_ok h
  obtain rfl : resolved.toPodSpec.manifest = m := Except.ok.inj hm
  refine ⟨⟨_, renderPod_eq h rfl, ?_⟩, ⟨_, renderPod_eq h rfl, ?_⟩, ?_⟩
  · exact PodSpec.yaml_read_manifest _
  · exact PodSpec.json_read_manifest _
  · exact PodSpec.every_manifest _

/-- A component whose texts look like other data. -/
def lookalikes : Component where
  parameters := [{ name := "port", type := .string }]
  containers := [{
    name := "null"
    image := "2020-01-01"
    env := [
      { name := "PORT", fromParam := some "port" },
      { name := "SCRIPT", value := some "- no\n # '\t😀" }] }]

/-- Texts that look like other data are read back as texts. -/
theorem renderPod_lookalikes :
    let env : List PodEnv := [⟨"PORT", some "8080"⟩, ⟨"SCRIPT", some "- no\n # '\t😀"⟩]
    let m := PodSpec.manifest ⟨[⟨env, "2020-01-01", none, "null", [], none, "1", "1G"⟩]⟩
    lookalikes.podManifest [("port", .text "8080")] = .ok m ∧
      (∃ t, lookalikes.renderPod [("port", .text "8080")] "yaml" = .ok t ∧
        Yaml.read t = .ok (Json.object m).toValue) ∧
      (∃ t, lookalikes.renderPod [("port", .text "8080")] "json" = .ok t ∧
        Json.read t = .ok (.object m)) ∧
      (Json.object m).Every IsManifestPart := by
  intro env m
  have hm : lookalikes.podManifest [("port", .text "8080")] = .ok m := by
    have hknown : lookalikes.unknownNames [("port", .text "8080")] = [] := List.mergeSort_nil
    rw [podManifest, resolve, effectiveValues, hknown]
    rfl
  exact ⟨hm, renderPod_roundTrip _ _ _ hm⟩

end Component

end Schematic
