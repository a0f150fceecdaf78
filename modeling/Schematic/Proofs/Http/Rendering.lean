import Schematic.Proofs.GroupVersionKind
import Schematic.Proofs.Http.Reading
import Schematic.Proofs.Pod.Rendering
import Schematic.Proofs.Pod.Unicode

/-!
# The two ways of rendering agree

A component is rendered as data and as YAML from one body. Both ways refuse the same components and
the same supplied values, and the YAML is read back as the data. Only the data needs the workload
type to be a full name.
-/

namespace Schematic.Http

open Json (HoldsOfWords IsSendable)

variable {origins : List Text} {r : Request} {route : Route} {b : RenderBody} {j : Json}
  {c : Component} {g : GroupVersionKind} {message : Text}

/-! ### Answers -/

def Request.to (r : Request) (route : Route) : Request :=
  { r with method := route.method, path := route.path }

/-- An answer holds data. -/
def Response.Holds (response : Response) (status : Nat) (j : Json) : Prop :=
  response.status = status ∧ response.content = .json j

/-- What is sent for a request is what the service answers. -/
lemma holds_serve {sent : Response} (route : Route) {status : Nat}
    (h : sent? (route.handle (r.to route)) = some sent) (hsent : sent.Holds status j) :
    (serve origins (r.to route)).Holds status j := by
  obtain ⟨headers, hserve⟩ :=
    serve_eq origins (show (r.to route).method = route.method from rfl)
      (show (r.to route).path = route.path from rfl)
  rw [hserve, h]
  exact hsent

/-- A refusal with a message that has bytes is answered by 400. -/
lemma holds_serve_of_refusal (route : Route)
    (h : route.handle (r.to route) = .error (.detail 400 message)) (hmessage : message.IsUnicode) :
    (serve origins (r.to route)).Holds 400 (.object [("detail", .text message)]) := by
  have hsent : sent? (route.handle (r.to route)) = some (.detail 400 message) := by
    rw [h]
    exact sendable?_detail_of_isUnicode hmessage
  exact holds_serve route hsent ⟨rfl, rfl⟩

/-- Data that can be sent is answered by 200. -/
lemma holds_serve_of_data (route : Route)
    (h : route.handle (r.to route) = .ok (some (.ofJson 200 j))) (hj : j.Every IsSendable) :
    (serve origins (r.to route)).Holds 200 j := by
  have hsent : sent? (route.handle (r.to route)) = some (.ofJson 200 j) := by
    rw [h]
    exact sendable?_ofJson_of_every hj
  exact holds_serve route hsent ⟨rfl, rfl⟩

/-! ### Rendering a body -/

def renderedData (c : Component) (g : GroupVersionKind) (m : List (Text × Json)) : Json := .object [
  ("workloadType", .text c.workloadType), ("groupVersionKind", nameJson g), ("podSpec", .object m)]

def renderedYaml (c : Component) (m : List (Text × Json)) : Json := .object [
  ("filename", .text c.manifestFilename), ("yaml", .text (Format.yaml.text m))]

section

variable (hdata : r.data = .ok (some j)) (hbody : RenderBody.read .values j.toValue = .valid b)
include hdata hbody

lemma readBody_eq : r.readBody RenderBody.read = .ok b := by
  rw [Request.readBody, hdata]
  simp only [ok_bind, hbody]
  rfl

omit hdata in
lemma isPlain_of_body {p : Json → Prop} (hp : HoldsOfWords p) (hj : j.Every p) :
    b.component.IsPlain p ∧ ∀ s ∈ bindingsOf b.supplied, s.2.IsPlain p := by
  have hread := RenderBody.keeps_read hp .values j.toValue ⟨j, rfl, hj⟩
  rw [hbody] at hread
  exact ⟨hread.1, isPlain_of_mem_bindingsOf hread.2⟩

omit hdata in
lemma isUnicode_names_of_body (hj : j.Every Json.IsUnicode) :
    ∀ s ∈ bindingsOf b.supplied, s.1.IsUnicode := by
  have hread := RenderBody.keeps_read Json.holdsOfWords_isUnicode .values j.toValue ⟨j, rfl, hj⟩
  rw [hbody] at hread
  exact isUnicode_of_mem_bindingsOf hread.2

/-- The integers of a body can be written, so its manifest depends on the faults of its values
only. -/
lemma podManifest_of_body (hc : Component.ofValue b.component = .ok c) :
    c.podManifest (bindingsOf b.supplied)
      = unlessFault ((c.fault? (bindingsOf b.supplied)).map .parameter)
        (c.filledManifest (bindingsOf b.supplied)) := by
  have hp := Json.isCommon_isShort.holdsOfWords
  have hshort := every_of_data Json.holdsOfSpelled_isShort hdata
  obtain ⟨hcomponent, hsupplied⟩ := isPlain_of_body hbody hp hshort
  have hplain := Component.isPlain_of_ofValue hp hcomponent hc
  exact Component.podManifest_eq (Component.effectiveValue_isPlain_of_toValue hp hplain hsupplied)

/-- Rendering a body as data: the component, the name and the values are checked in this order. -/
lemma render_of_body : Http.render r =
    match Component.ofValue b.component with
    | .error e => .error (.detail 400 e.message)
    | .ok c =>
      match GroupVersionKind.parse c.workloadType with
      | .error e => .error (.detail 400 e.message)
      | .ok g =>
        match c.fault? (bindingsOf b.supplied) with
        | some e => .error (.detail 400 e.message)
        | none =>
          .ok (some (.ofJson 200
            (renderedData c g (c.filledManifest (bindingsOf b.supplied))))) := by
  rw [render, readBody_eq hdata hbody]
  simp only [ok_bind, componentOf]
  cases hc : Component.ofValue b.component with
  | error e => rfl
  | ok c =>
    simp only [ok_bind, fullName]
    cases GroupVersionKind.parse c.workloadType with
    | error e => rfl
    | ok g =>
      simp only [ok_bind, manifestOf, podManifest_of_body hdata hbody hc]
      cases c.fault? (bindingsOf b.supplied) <;> rfl

/-- Rendering a body as YAML: the component and the values are checked. -/
lemma renderYaml_of_body : renderYaml r =
    match Component.ofValue b.component with
    | .error e => .error (.detail 400 e.message)
    | .ok c =>
      match c.fault? (bindingsOf b.supplied) with
      | some e => .error (.detail 400 e.message)
      | none =>
        .ok (some (.ofJson 200 (renderedYaml c (c.filledManifest (bindingsOf b.supplied))))) := by
  rw [renderYaml, readBody_eq hdata hbody]
  simp only [ok_bind, componentOf]
  cases hc : Component.ofValue b.component with
  | error e => rfl
  | ok c =>
    simp only [ok_bind, podManifest_of_body hdata hbody hc]
    cases c.fault? (bindingsOf b.supplied) <;> rfl

end

/-! ### What is rendered can be sent -/

section

variable {supplied : Bindings}

lemma FormatError.isUnicode_message (e : GroupVersionKind.FormatError) : e.message.IsUnicode := by
  cases e <;> exact Text.isUnicode_ofString _

/-- A full name can be sent if its parts have bytes. -/
lemma every_nameJson (hg : g.group.IsUnicode ∧ g.version.IsUnicode ∧ g.kind.IsUnicode) :
    (nameJson g).Every IsSendable := by
  refine ⟨Json.holdsOfWords_isSendable.object _ ?_, ⟨hg.1, trivial⟩, ⟨hg.2.1, trivial⟩,
    ⟨hg.2.2, trivial⟩, trivial⟩
  show Text.AreFieldNames ["group", "version", "kind"]
  decide

/-- A manifest has no numbers but integers. -/
lemma every_isSendable_manifest {pod : PodSpec}
    (h : (Json.object pod.manifest).Every Json.IsUnicode) :
    (Json.object pod.manifest).Every IsSendable := by
  have hfinite : (Json.object pod.manifest).Every Json.IsFinite :=
    Json.Every.imp (fun _ h => h.isRegular.isFinite) _ pod.every_manifest
  exact Json.Every.imp (fun _ h => ⟨h.1, h.2⟩) _ (Json.Every.and _ h hfinite)

/-- The workload type and the pod decide, since the parts of a full name are parts of the workload
type. -/
lemma every_renderedData_iff (hg : GroupVersionKind.parse c.workloadType = .ok g) :
    (renderedData c g (c.filledManifest supplied)).Every IsSendable ↔
      c.workloadType.IsUnicode ∧
        (Json.object (c.filledManifest supplied)).Every Json.IsUnicode := by
  constructor
  · exact fun h => ⟨h.2.1.isUnicode, Json.Every.imp (fun _ h => h.isUnicode) _ h.2.2.2.1⟩
  · rintro ⟨htype, h⟩
    have hname := every_nameJson (GroupVersionKind.isUnicode_of_parse hg htype)
    refine ⟨Json.holdsOfWords_isSendable.object _ ?_, ⟨htype, trivial⟩, hname,
      every_isSendable_manifest h, trivial⟩
    show Text.AreFieldNames ["workloadType", "groupVersionKind", "podSpec"]
    decide

/-- Only the name of the file decides, since YAML documents have bytes. -/
lemma every_renderedYaml_iff : (renderedYaml c (c.filledManifest supplied)).Every IsSendable ↔
    c.manifestFilename.IsUnicode := by
  have hyaml : (Json.text (Format.yaml.text (c.filledManifest supplied))).Every IsSendable :=
    ⟨PodSpec.isUnicode_yaml _, trivial⟩
  refine ⟨fun h => h.2.1.isUnicode,
    fun h => ⟨Json.holdsOfWords_isSendable.object _ ?_, ⟨h, trivial⟩, hyaml, trivial⟩⟩
  show Text.AreFieldNames ["filename", "yaml"]
  decide

end

/-! ### Agreement -/

/-- The component of a body is valid, and its workload type is no full name. -/
def RenderBody.IsMisnamed (b : RenderBody) (e : GroupVersionKind.FormatError) : Prop :=
  ∃ c, Component.ofValue b.component = .ok c ∧ GroupVersionKind.parse c.workloadType = .error e

/-- The answers of the two ways of rendering a body agree. -/
structure RenderBody.Agree (b : RenderBody) (data yaml : Response) : Prop where
  /-- What is rendered as data is rendered as YAML, which is read back as the pod of the data. -/
  yaml_of_data : data.status = 200 → ∃ c g m t, Component.ofValue b.component = .ok c ∧
    data.Holds 200 (renderedData c g m) ∧
    yaml.Holds 200 (.object [("filename", .text c.manifestFilename), ("yaml", .text t)]) ∧
    Yaml.read t = .ok (Json.object m).toValue
  /-- What is rendered as YAML is rendered as data, if the workload type is a full name. -/
  data_of_yaml : yaml.status = 200 → (∀ e, ¬ b.IsMisnamed e) → data.status = 200
  /-- What is refused as YAML is refused as data, for the same reason or for the workload type. -/
  refused : yaml.status = 400 →
    data.status = 400 ∧ ((∀ e, ¬ b.IsMisnamed e) → data.content = yaml.content)
  /-- A workload type that is no full name is what the data is refused for. -/
  misnamed : ∀ e, b.IsMisnamed e → data.Holds 400 (.object [("detail", .text e.message)])
  /-- The service does not fail. -/
  answered : (data.status = 200 ∨ data.status = 400) ∧ (yaml.status = 200 ∨ yaml.status = 400)

/-- A body that both ways refuse alike. -/
lemma RenderBody.Agree.of_refused {data yaml : Response} {j : Json} (hdata : data.Holds 400 j)
    (hyaml : yaml.Holds 400 j)
    (h : ∀ e, b.IsMisnamed e → j = .object [("detail", .text e.message)]) :
    b.Agree data yaml where
  yaml_of_data h200 := by simp [hdata.1] at h200
  data_of_yaml h200 := by simp [hyaml.1] at h200
  refused _ := ⟨hdata.1, fun _ => hdata.2.trans hyaml.2.symm⟩
  misnamed e he := h e he ▸ hdata
  answered := ⟨.inr hdata.1, .inr hyaml.1⟩

/-- A body whose workload type is no full name. -/
lemma RenderBody.Agree.of_misnamed {data yaml : Response} {e : GroupVersionKind.FormatError}
    (he : b.IsMisnamed e) (hdata : data.Holds 400 (.object [("detail", .text e.message)]))
    (hyaml : yaml.status = 200 ∨ yaml.status = 400) : b.Agree data yaml where
  yaml_of_data h200 := by simp [hdata.1] at h200
  data_of_yaml _ hnamed := absurd he (hnamed e)
  refused _ := ⟨hdata.1, fun hnamed => absurd he (hnamed e)⟩
  misnamed e' he' := by
    obtain ⟨c, hc, hparse⟩ := he
    obtain ⟨c', hc', hparse'⟩ := he'
    rw [hc] at hc'
    cases hc'
    rw [hparse] at hparse'
    cases hparse'
    exact hdata
  answered := ⟨.inr hdata.1, hyaml⟩

/-- A body whose workload type is a full name is not misnamed. -/
lemma RenderBody.not_isMisnamed (hc : Component.ofValue b.component = .ok c)
    (hg : GroupVersionKind.parse c.workloadType = .ok g) (e : GroupVersionKind.FormatError) :
    ¬ b.IsMisnamed e := by
  rintro ⟨c', hc', hparse⟩
  rw [hc] at hc'
  cases hc'
  rw [hg] at hparse
  cases hparse

/-- A body that is rendered in both ways. -/
lemma RenderBody.Agree.of_rendered {data yaml : Response} {m : List (Text × Json)} {t : Text}
    (hc : Component.ofValue b.component = .ok c)
    (hg : GroupVersionKind.parse c.workloadType = .ok g)
    (hdata : data.Holds 200 (renderedData c g m))
    (hyaml : yaml.Holds 200 (.object [("filename", .text c.manifestFilename), ("yaml", .text t)]))
    (ht : Yaml.read t = .ok (Json.object m).toValue) : b.Agree data yaml where
  yaml_of_data _ := ⟨c, g, m, t, hc, hdata, hyaml, ht⟩
  data_of_yaml _ _ := hdata.1
  refused h400 := by simp [hyaml.1] at h400
  misnamed e he := absurd he (not_isMisnamed hc hg e)
  answered := ⟨.inl hdata.1, .inl hyaml.1⟩

section

variable (hdata : r.data = .ok (some j)) (hj : j.Every Json.IsUnicode)
  (hbody : RenderBody.read .values j.toValue = .valid b)
include hdata hj hbody

/-- The two ways agree on a component: its workload type decides on one of them, its values on
both. -/
lemma agree_of_component (hc : Component.ofValue b.component = .ok c) :
    b.Agree (serve origins (r.to .render)) (serve origins (r.to .renderYaml)) := by
  have hdata' (route : Route) : (r.to route).data = .ok (some j) := hdata
  have hrender := render_of_body (hdata' .render) hbody
  have hyaml := renderYaml_of_body (hdata' .renderYaml) hbody
  rw [hc] at hrender hyaml
  have hp := Json.holdsOfWords_isUnicode
  obtain ⟨hcomponent, hsupplied⟩ := isPlain_of_body hbody hp hj
  have hplain := Component.isPlain_of_ofValue hp hcomponent hc
  have hfile : (renderedYaml c (c.filledManifest (bindingsOf b.supplied))).Every IsSendable :=
    every_renderedYaml_iff.mpr (Component.isUnicode_manifestFilename hplain)
  have hfault {f : ParameterError} (hf : c.fault? (bindingsOf b.supplied) = some f) :
      f.message.IsUnicode :=
    Component.isUnicode_of_fault? hplain (isUnicode_names_of_body hbody hj) hf
  cases hparse : GroupVersionKind.parse c.workloadType with
  | error e =>
    -- Only the rendering as data needs a full name, so the other one may succeed.
    simp only [hparse] at hrender
    refine .of_misnamed ⟨c, hc, hparse⟩
      (holds_serve_of_refusal .render hrender (FormatError.isUnicode_message e)) ?_
    cases hf : c.fault? (bindingsOf b.supplied) with
    | none =>
      simp only [hf] at hyaml
      exact .inl (holds_serve_of_data .renderYaml hyaml hfile).1
    | some f =>
      simp only [hf] at hyaml
      exact .inr (holds_serve_of_refusal .renderYaml hyaml (hfault hf)).1
  | ok g =>
    simp only [hparse] at hrender
    cases hf : c.fault? (bindingsOf b.supplied) with
    | none =>
      -- Both renderings write the same manifest.
      simp only [hf] at hrender hyaml
      have hmanifest : (renderedData c g (c.filledManifest (bindingsOf b.supplied))).Every
          IsSendable :=
        (every_renderedData_iff hparse).mpr
          ⟨((Component.isPlain_iff hp).mp hplain).1,
            Component.every_isUnicode_filledManifest hplain hsupplied⟩
      exact .of_rendered hc hparse (holds_serve_of_data .render hrender hmanifest)
        (holds_serve_of_data .renderYaml hyaml hfile) (PodSpec.yaml_read_manifest _)
    | some f =>
      -- Both refuse the values for the same fault.
      simp only [hf] at hrender hyaml
      exact .of_refused (holds_serve_of_refusal .render hrender (hfault hf))
        (holds_serve_of_refusal .renderYaml hyaml (hfault hf))
        fun e he => absurd he (RenderBody.not_isMisnamed hc hparse e)

/-- The two ways refuse what is no component by the same message. -/
lemma agree_of_readError {e : Component.ReadError} (he : Component.ofValue b.component = .error e) :
    b.Agree (serve origins (r.to .render)) (serve origins (r.to .renderYaml)) := by
  have hdata' (route : Route) : (r.to route).data = .ok (some j) := hdata
  have hrender := render_of_body (hdata' .render) hbody
  have hyaml := renderYaml_of_body (hdata' .renderYaml) hbody
  rw [he] at hrender hyaml
  have hp := Json.holdsOfWords_isUnicode
  have hmessage := Component.isUnicode_of_ofValue hp (isPlain_of_body hbody hp hj).1 he
  refine .of_refused (holds_serve_of_refusal .render hrender hmessage)
    (holds_serve_of_refusal .renderYaml hyaml hmessage) ?_
  rintro e' ⟨c, hc, -⟩
  rw [he] at hc
  cases hc

end

/-- The two ways of rendering agree on every body without halves of surrogate pairs. -/
theorem serve_render_agree (hdata : r.data = .ok (some j)) (hj : j.Every Json.IsUnicode)
    (hbody : RenderBody.read .values j.toValue = .valid b) :
    b.Agree (serve origins (r.to .render)) (serve origins (r.to .renderYaml)) := by
  cases hc : Component.ofValue b.component with
  | ok c => exact agree_of_component hdata hj hbody hc
  | error e => exact agree_of_readError hdata hj hbody hc

def nginxComponent : List (Text × Json) :=
  [("containers", .array [.object [("name", .text "main"), ("image", .text "nginx")]])]

def nginxBody : Json := .object [("component", .object nginxComponent)]

def nginxRequest : Request :=
  { method := "POST", path := "/", body := Json.render Json.compact nginxBody }

/-- The data of the request is regular. -/
lemma every_isRegular_nginxBody : nginxBody.Every Json.IsRegular := by
  have hobject (es : List (Text × Json)) (h : (es.map Prod.fst).Nodup) :
      (Json.object es).IsRegular :=
    ⟨trivial, trivial, h⟩
  have htext (t : Text) : (Json.text t).IsRegular := ⟨trivial, trivial, trivial⟩
  have hmain : (Json.object [("name", .text "main"), ("image", .text "nginx")]).Every
      Json.IsRegular :=
    ⟨hobject _ (by decide), htext _, htext _, trivial⟩
  exact ⟨hobject _ (by decide),
    ⟨hobject _ (by decide), ⟨⟨trivial, trivial, trivial⟩, hmain, trivial⟩, trivial⟩, trivial⟩

/-- The body of the request is read as its data. -/
lemma data_nginxRequest : nginxRequest.data = .ok (some nginxBody) := by
  have hsome : nginxRequest.body.isEmpty = false := by decide +kernel
  have hmark : withoutMark nginxRequest.body = nginxRequest.body := by decide +kernel
  rw [Request.data, hsome, hmark]
  have hread : Json.read nginxRequest.body = .ok nginxBody :=
    Json.read_render Json.Style.isPlain_compact every_isRegular_nginxBody
  rw [hread]
  rfl

/-- A component of one container is rendered in both ways. -/
theorem serve_render_agree_nginx :
    let b : RenderBody := ⟨.map (Json.toEntries nginxComponent), []⟩
    nginxRequest.data = .ok (some nginxBody) ∧ nginxBody.Every Json.IsUnicode ∧
      RenderBody.read .values nginxBody.toValue = .valid b ∧
      (serve [] (nginxRequest.to .render)).status = 200 ∧
      b.Agree (serve [] (nginxRequest.to .render)) (serve [] (nginxRequest.to .renderYaml)) := by
  intro b
  have hunicode : nginxBody.Every Json.IsUnicode :=
    Json.Every.imp (fun _ h => h.isUnicode) _ ((isSendable_iff nginxBody).mp (by decide +kernel))
  have hbody : RenderBody.read .values nginxBody.toValue = .valid b := by
    simp [nginxBody, Json.toValue, Json.toEntries, RenderBody.read, Fields.need, Fields.take,
      Value.get?, Text.ofString_beq, mapField]
    rfl
  exact ⟨data_nginxRequest, hunicode, hbody, by decide +kernel,
    serve_render_agree data_nginxRequest hunicode hbody⟩

end Schematic.Http
