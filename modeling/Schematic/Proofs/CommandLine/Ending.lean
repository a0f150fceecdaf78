import Schematic.Proofs.CommandLine.Assignment
import Schematic.Proofs.CommandLine.Delivery
import Schematic.Proofs.Component.Failure
import Schematic.Proofs.Component.Contract
import Schematic.Proofs.GroupVersionKind
import Schematic.Proofs.Pod.Rendering

/-!
# How a run ends

A run ends by an exit code, unless a request to render meets one of six obstacles, all of them in
what it is given: a path that is too long or no path, a value or a document that holds what does not
convert, a parameter whose value has no literal, or a document with half of a surrogate pair that
goes to a file. What a run prints has bytes, unless the name that it takes apart or the JSON
document that it prints has none.
-/

namespace Schematic

/-! ### Literals of references -/

namespace Component

variable {c : Component} {supplied : Bindings} {formatName : Text} {e : LiteralError}

/-- An environment variable of a component refers to a parameter whose value has no literal. -/
def RefersToUnwritten (c : Component) (supplied : Bindings) (e : LiteralError) : Prop :=
  ∃ k ∈ c.containers, ∃ v ∈ k.env, ∃ name, reference? v.fromParam = some name ∧
    (c.effectiveValue supplied name).Unwritten e

/-- A literal that fails is that of a parameter that the component refers to. -/
lemma refersToUnwritten_of_resolve (h : c.resolve supplied = .error (.literal e)) :
    c.RefersToUnwritten supplied e := by
  obtain ⟨name, hreaches, hfault⟩ := resolve_eq_literal_iff.mp h
  obtain ⟨before, p, after, henvs, hname, -⟩ := hreaches.first
  have hp : p ∈ c.envs := by
    rw [henvs]
    exact List.mem_append_right before List.mem_cons_self
  obtain ⟨k, hk, hpk⟩ := List.mem_flatMap.mp hp
  obtain ⟨v, hv, rfl⟩ := List.mem_map.mp hpk
  exact ⟨k, hk, v, hv, name, hname, Value.unwritten_of_literalFault? hfault⟩

/-- The manifest fails as the resolution does. -/
lemma podManifest_eq_error {f : ResolutionError} (h : c.podManifest supplied = .error f) :
    c.resolve supplied = .error f := by
  rw [podManifest, bind_eq_error] at h
  rcases h with h | ⟨resolved, -, h⟩
  · exact h
  · cases h

/-- Rendering fails by a literal only where a value that is referred to has none. -/
lemma refersToUnwritten_of_renderPod
    (h : c.renderPod supplied formatName = .error (.resolution (.literal e))) :
    c.RefersToUnwritten supplied e := by
  rw [renderPod, bind_eq_error] at h
  rcases h with h | ⟨m, -, h⟩
  · obtain ⟨f, hmanifest, hf⟩ := mapError_eq_error.mp h
    cases hf
    exact refersToUnwritten_of_resolve (podManifest_eq_error hmanifest)
  · split at h <;> cases h

/-- A document is the text of a manifest in the format that is named. -/
lemma exists_of_renderPod {document : Text} (h : c.renderPod supplied formatName = .ok document) :
    ∃ pod format, c.podManifest supplied = .ok (PodSpec.manifest pod) ∧
      Format.ofName? formatName = some format ∧ document = format.text pod.manifest := by
  obtain ⟨m, hm, h⟩ := exists_of_bind_eq_ok h
  cases hmanifest : c.podManifest supplied with
  | error f =>
    rw [hmanifest] at hm
    cases hm
  | ok m' =>
    rw [hmanifest] at hm
    cases hm
    obtain ⟨resolved, -, hresolved⟩ := exists_of_bind_eq_ok hmanifest
    cases hresolved
    split at h
    · next format hformat =>
      cases h
      exact ⟨resolved.toPodSpec, format, rfl, hformat, rfl⟩
    · cases h

end Component

/-- Only one name is that of the format JSON. -/
lemma Format.ofName?_eq_json {name : Text} (h : Format.ofName? name = some .json) :
    name = Text.ofString "json" := by
  unfold Format.ofName? at h
  split_ifs at h with hjson
  · exact hjson
  · cases h

namespace CommandLine

variable {environment : Environment} {line : List Text} {r : RenderRequest} {w : Workspace}
  {e : Failure}

/-! ### Obstacles -/

/-- What ends the program in the middle of a request to render. -/
inductive RenderRequest.Obstacle (environment : Environment) (r : RenderRequest) (w : Workspace) :
    Failure → Prop
  /-- The path of the component file is too long. -/
  | component {e : FileError} (h : Workspace.IsTooLong (FilePath.normal r.component)) :
      Obstacle environment r w (.file e)
  /-- The value of an assignment holds what does not convert, and nobody expects that. -/
  | value {item name document : Text} {e : Yaml.ConversionError} (hitem : item ∈ r.params)
      (hsplit : Text.splitFirst? (.char '=') item = some (name, document))
      (h : Yaml.HoldsUnconverted document e) (he : isExpectedConversion e = false) :
      Obstacle environment r w (.assignment (.unconverted e))
  /-- The component file holds what does not convert, and nobody expects that. -/
  | document {bytes : List UInt8} {text : Text} {e : Yaml.ConversionError}
      (hbytes : w.read r.component = .ok bytes) (htext : fileText bytes = .ok text)
      (h : Yaml.HoldsUnconverted text e) (he : isExpectedConversion e = false) :
      Obstacle environment r w (.reading (.unconverted e))
  /-- The component refers to a parameter whose value is without literal for its kind or for a
  key. -/
  | reference {supplied : Bindings} {bytes : List UInt8} {text : Text} {c : Component}
      {e : LiteralError} (hsupplied : assignments r.params = .ok supplied)
      (hbytes : w.read r.component = .ok bytes) (htext : fileText bytes = .ok text)
      (hc : Component.ofText text = .ok c) (h : c.RefersToUnwritten supplied e)
      (he : e ≠ .tooManyDigits) : Obstacle environment r w (.rendering (.resolution (.literal e)))
  /-- The output is to go to a file whose path is no path. -/
  | output {path : Text} {f : PathFault} (houtput : r.output = some path)
      (h : FilePath.fault? (FilePath.parent path) = some f ∨
        FilePath.fault? (FilePath.normal path) = some f) :
      Obstacle environment r w (.path f)
  /-- A JSON document with half of a surrogate pair is to go to a file. -/
  | half {path document : Text} {u : Utf8.Unwritable} (houtput : r.output = some path)
      (hformat : r.formatName environment = Text.ofString "json")
      (h : r.Renders environment w document) (hu : Utf8.encodeText document = .error u) :
      Obstacle environment r w (.writing u)

/-- A document that is not told of is one that holds what does not convert. -/
lemma holdsUnconverted_of_ofText {text : Text} {e : Yaml.ConversionError}
    (h : Component.ofText text = .error (.unconverted e)) : Yaml.HoldsUnconverted text e := by
  rcases Component.comesFrom_of_ofText h with hschema | hcause
  · exact absurd hschema id
  · cases hcause with
    | characters ht h => exact .characters ht h
    | node hn h => exact .node hn h

/-- What keeps a component from being rendered is reported, or an obstacle. -/
lemma RenderRequest.FailsBy.obstacle (h : r.FailsBy environment w e) (he : e.isReported = false) :
    r.Obstacle environment w e := by
  cases h with
  -- What is told of by an exit code is no obstacle.
  | file _ | decoding _ _ => cases he
  | assignment h =>
    rename_i e
    cases e with
    | malformed _ | refused _ _ _ => cases he
    | unconverted e =>
      -- The fault is in the document of one of the assigned values.
      obtain ⟨item, hitem, name, document, hnames, h⟩ := exists_of_unconverted h
      exact .value hitem (splitFirst?_eq_iff_names.mpr hnames).1 h he
  | reading hbytes htext h =>
    rename_i e
    cases e with
    | unconverted e => exact .document hbytes htext (holdsUnconverted_of_ofText h) he
    | _ => cases he
  | rendering hsupplied hbytes htext hc h =>
    rename_i e
    match e with
    | .unsupported _ | .resolution (.parameter _) | .resolution (.literal .tooManyDigits) =>
      -- These faults of rendering are told of, and the others come from a literal.
      cases he
    | .resolution (.literal (.kind v)) =>
      exact .reference hsupplied hbytes htext hc (Component.refersToUnwritten_of_renderPod h)
        (by simp)
    | .resolution (.literal (.key v)) =>
      exact .reference hsupplied hbytes htext hc (Component.refersToUnwritten_of_renderPod h)
        (by simp)

/-- A document in YAML has bytes. -/
lemma RenderRequest.Renders.isUnicode_or_json {document : Text}
    (h : r.Renders environment w document) :
    document.IsUnicode ∨ r.formatName environment = Text.ofString "json" := by
  obtain ⟨supplied, bytes, text, c, -, -, -, -, h⟩ := h
  obtain ⟨pod, format, -, hformat, rfl⟩ := Component.exists_of_renderPod h
  cases format with
  | json => exact .inr (Format.ofName?_eq_json hformat)
  | yaml => exact .inl pod.isUnicode_yaml

/-! ### Endings -/

/-- A request to render ends by the exit code 0 or 1 or meets an obstacle, and what it prints has
bytes or is a JSON document. -/
structure RenderRequest.Ends (environment : Environment) (r : RenderRequest) (w : Workspace)
    (o : Outcome) :
    Prop where
  exit : o.exit = .ok 0 ∨ o.exit = .ok 1 ∨ ∃ e, o.exit = .error e ∧ r.Obstacle environment w e
  output : o.output.IsUnicode ∨
    r.formatName environment = Text.ofString "json" ∧ r.Renders environment w o.output

/-- How a run ends for what its command line asks: by 0 for help, by 2 for a misuse, by 0 or 1 for a
name, and by 0 or 1 for a request to render that meets no obstacle. -/
def EndsFor (environment : Environment) (w : Workspace) : Except Stop Request → Outcome → Prop
  | .error (.help _), o => o.exit = .ok 0 ∧ o.output.IsUnicode
  | .error (.misuse _ _), o => o.exit = .ok 2 ∧ o.output.IsUnicode
  | .ok (.gvk value), o =>
    (o.exit = .ok 0 ∨ o.exit = .ok 1) ∧ (value.IsUnicode → o.output.IsUnicode)
  | .ok (.render r), o => r.Ends environment w o

lemma Grammar.isUnicode_help (g : Grammar) : g.help.IsUnicode := by
  cases g <;> exact Utf8.unwritable?_eq_none_iff.mp (by decide +kernel)

/-- A failure ends by an exit code, unless it is an obstacle. -/
lemma RenderRequest.ends_failed {activity subject : Text} {log : List LogLine}
    (h : e.isReported = false → r.Obstacle environment w e) :
    r.Ends environment w (.failed activity subject log e) := by
  refine ⟨?_, .inl (Outcome.output_failed ▸ Text.isUnicode_nil)⟩
  rw [Outcome.exit_failed]
  cases he : e.isReported with
  | true => exact .inr (.inl rfl)
  | false => exact .inr (.inr ⟨e, rfl, h he⟩)

lemma RenderRequest.Obstacle.of_isPathFailure {path : Text} (houtput : r.output = some path)
    (h : IsPathFailure path e) (he : e.isReported = false) : r.Obstacle environment w e := by
  rcases h with ⟨f, rfl⟩ | ⟨f, rfl, h⟩
  · cases he
  · exact .output houtput h

/-- A delivery ends by success, by failure, or by an obstacle to the writing. -/
lemma RenderRequest.ends_of_delivery {document : Text} {result : Outcome × Workspace}
    (hdocument : r.Renders environment w document) (h : Delivery r.output document w result) :
    r.Ends environment w result.1 := by
  cases h with
  | failed houtput he _ => exact ends_failed (.of_isPathFailure houtput he)
  | emptied hexit hempty h =>
    obtain ⟨path, houtput, -, hu, -⟩ := h
    have hhalf : ¬ document.IsUnicode := by
      rw [← Utf8.unwritable?_eq_none_iff]
      intro hnone
      rw [Utf8.encodeText, hnone] at hu
      cases hu
    have hjson := hdocument.isUnicode_or_json.resolve_left hhalf
    exact ⟨.inr (.inr ⟨_, hexit, .half houtput hjson hdocument hu⟩),
      .inl (hempty ▸ Text.isUnicode_nil)⟩
  | delivered hexit h =>
    refine ⟨.inl hexit, ?_⟩
    unfold IsDelivered at h
    split at h
    · rw [h.1]
      exact hdocument.isUnicode_or_json.imp_right fun hjson => ⟨hjson, hdocument⟩
    · rw [h.1]
      exact hdocument.isUnicode_or_json.imp_right fun hjson => ⟨hjson, hdocument⟩
    · exact .inl (h.1 ▸ Text.isUnicode_nil)

/-- The rendering command ends as `Ends` says. -/
lemma RenderRequest.ends_render (environment : Environment) (r : RenderRequest) (w : Workspace) :
    r.Ends environment w ((render environment r : StateM Workspace _) w).1 := by
  have hresult := rendering_render environment r w
  generalize (render environment r : StateM Workspace _) w = result at hresult ⊢
  cases hresult with
  | absent => exact ⟨.inr (.inl rfl), .inl Text.isUnicode_nil⟩
  | failed h => exact ends_failed h.obstacle
  | rendered hdocument h => exact ends_of_delivery hdocument h
  | unseen h =>
    rename_i e
    have hlong : Workspace.IsTooLong (FilePath.normal r.component) := by
      rw [isThere_eq] at h
      cases hfault : FilePath.fault? (FilePath.normal r.component) with
      | some f =>
        rw [hfault] at h
        cases h
      | none =>
        rw [hfault] at h
        exact Workspace.isThere_eq_error h
    exact ⟨.inr (.inr ⟨.file e, rfl, .component hlong⟩), .inl Text.isUnicode_nil⟩

/-- The naming command ends by success or by failure. -/
lemma exit_splitName (value : Text) :
    (splitName value).exit = .ok 0 ∨ (splitName value).exit = .ok 1 := by
  unfold splitName
  split
  · exact .inr rfl
  · exact .inl rfl

/-- The naming command writes what has bytes. -/
lemma isUnicode_splitName {value : Text} (h : value.IsUnicode) :
    (splitName value).output.IsUnicode := by
  unfold splitName
  split
  · exact Text.isUnicode_nil
  · next g hg =>
    obtain ⟨hgroup, hversion, hkind⟩ := GroupVersionKind.isUnicode_of_parse hg h
    have hliteral (s : String) : (s : Text).IsUnicode := Text.isUnicode_ofString s
    exact ((((((hliteral _).append hgroup).append (hliteral _)).append hversion).append
      (hliteral _)).append hkind).append (hliteral _)

end CommandLine

end Schematic
