import Schematic.Proofs.Component.Problem
import Schematic.Proofs.Http.Rendering

/-!
# How the service answers

A request to a route is answered by success, or by what is wrong with the request. The service fails
only on a request whose answer can not be sent: since JSON is read leniently, a body may hold halves
of surrogate pairs and numbers that are not finite, and they come back in complaints, in messages,
and in what is checked or rendered.
-/

namespace Schematic

lemma Checked.Gives.isUnicode_of_mem_problems {α : Type} {R : α → Prop} {a : Checked α}
    (h : a.Gives R) {q : Problem} (hq : q ∈ a.problems) : q.IsUnicode := by
  cases a with
  | valid a => exact absurd hq List.not_mem_nil
  | invalid ps => exact h q hq

namespace Http

open Json (IsSendable)

variable {origins : List Text} {r : Request} {route : Route} {b : RenderBody} {j : Json}
  {c : Component} {g : GroupVersionKind} {supplied : Bindings} {message : Text}
  {response : Response}

/-! ### What is wrong with a request -/

/-- What is wrong with the shape of data that is sent to a route, by place and cause. -/
def Route.problems : Route → Json → List Problem
  | .validate, j => (mapField .values j.toValue).problems
  | .render, j | .renderYaml, j => (RenderBody.read .values j.toValue).problems
  | .health, _ | .parseName, _ => []

/-- The route renders a component. -/
def Route.IsRendering (route : Route) : Prop := route = .render ∨ route = .renderYaml

/-- The body of a request is a component and values of its parameters to render it with. -/
def Request.Gives (r : Request) (c : Component) (supplied : Bindings) : Prop :=
  ∃ j b, r.data = .ok (some j) ∧ RenderBody.read .values j.toValue = .valid b ∧
    Component.ofValue b.component = .ok c ∧ bindingsOf b.supplied = supplied

/-- A request to a route is at fault. -/
inductive Request.Faulty (r : Request) : Route → Prop
  /-- What is to be checked is no component. -/
  | document (h : ∀ j c, r.data = .ok (some j) → Component.ofValue j.toValue ≠ .ok c) :
      r.Faulty .validate
  /-- What is to be rendered is no component, or there is no body to render. -/
  | body {route : Route} (hroute : route.IsRendering) (h : ∀ c supplied, ¬ r.Gives c supplied) :
      r.Faulty route
  /-- The workload type is no full name. -/
  | workloadType {c : Component} {supplied : Bindings} {e : GroupVersionKind.FormatError}
      (hc : r.Gives c supplied) (he : GroupVersionKind.parse c.workloadType = .error e) :
      r.Faulty .render
  /-- The supplied values are none for the component. -/
  | values {route : Route} {c : Component} {supplied : Bindings} {e : ParameterError}
      (hroute : route.IsRendering) (hc : r.Gives c supplied) (he : c.fault? supplied = some e) :
      r.Faulty route
  /-- The query has no full name. -/
  | name (h : ∀ t g, r.parameter? "value" = some t → GroupVersionKind.parse t ≠ .ok g) : r.Faulty
    .parseName

/-- The answer to a request to a route would hold what can not be sent. -/
inductive Request.Unanswerable (r : Request) : Route → Prop
  /-- A complaint is about a part of the body that can not be sent back. -/
  | complaint {route : Route} {j : Json} {q : Problem} (hdata : r.data = .ok (some j))
      (hq : q ∈ route.problems j) (h : ¬ (inputAt q.path j).Every IsSendable) : r.Unanswerable route
  /-- The checked component has a text without bytes. -/
  | component {j : Json} {c : Component} (hdata : r.data = .ok (some j))
      (hc : Component.ofValue j.toValue = .ok c) (h : ¬ c.toValue.IsPlain Json.IsUnicode) :
      r.Unanswerable .validate
  /-- The supplied values are refused by a message without bytes. -/
  | refusal {route : Route} {c : Component} {supplied : Bindings} {e : ParameterError}
      (hroute : route.IsRendering) (hc : r.Gives c supplied)
      (hname : route = .render → ∃ g, GroupVersionKind.parse c.workloadType = .ok g)
      (he : c.fault? supplied = some e) (h : ¬ e.message.IsUnicode) : r.Unanswerable route
  /-- The workload type or a text of the pod is without bytes. -/
  | pod {c : Component} {supplied : Bindings} {g : GroupVersionKind} (hc : r.Gives c supplied)
      (hg : GroupVersionKind.parse c.workloadType = .ok g) (hnone : c.fault? supplied = none)
      (h : ¬ (c.workloadType.IsUnicode ∧
        (Json.object (c.filledManifest supplied)).Every Json.IsUnicode)) : r.Unanswerable .render
  /-- The name of the file is without bytes. -/
  | file {c : Component} {supplied : Bindings} (hc : r.Gives c supplied)
      (hnone : c.fault? supplied = none) (h : ¬ c.manifestFilename.IsUnicode) :
      r.Unanswerable .renderYaml

/-! ### Handling -/

/-- The data in a body is one. -/
lemma data_unique {j' : Json} (h : r.data = .ok (some j)) (h' : r.data = .ok (some j')) :
    j' = j := by
  rw [h] at h'
  cases h'
  rfl

/-- A request gives one component and one list of values at most. -/
lemma Request.gives_unique {c' : Component} {supplied' : Bindings} (h : r.Gives c supplied)
    (h' : r.Gives c' supplied') : c' = c ∧ supplied' = supplied := by
  obtain ⟨j, b, hdata, hbody, hc, rfl⟩ := h
  obtain ⟨j', b', hdata', hbody', hc', rfl⟩ := h'
  obtain rfl := data_unique hdata hdata'
  rw [hbody] at hbody'
  cases hbody'
  rw [hc] at hc'
  cases hc'
  exact ⟨rfl, rfl⟩

/-- What is wrong with the body decides on the answer of a rendering. -/
lemma handle_of_readBody (hroute : route.IsRendering)
    (h : r.readBody RenderBody.read = .error response) :
    route.handle r = .error response := by
  rcases hroute with rfl | rfl
  · rw [Route.handle, render, h]
    rfl
  · rw [Route.handle, renderYaml, h]
    rfl

lemma validate_of_readBody (h : r.readBody mapField = .error response) :
    Route.validate.handle r = .error response := by
  rw [Route.handle, validate, h]
  rfl

/-- Data with a problem is answered by complaints. -/
lemma readBody_of_mem_problems {α : Type} {read : FieldReader α} {q : Problem}
    (hdata : r.data = .ok (some j)) (hq : q ∈ (read .values j.toValue).problems) :
    r.readBody read = .error (.unprocessable (complaints j (read .values j.toValue).problems)) := by
  rw [Request.readBody, hdata]
  simp only [ok_bind]
  cases hresult : read .values j.toValue with
  | valid a =>
    rw [hresult] at hq
    exact absurd hq List.not_mem_nil
  | invalid ps => rfl

/-- The problems of data are told in texts that have bytes. -/
lemma isUnicode_of_mem_problems {q : Problem} (hdata : r.data = .ok (some j))
    (hq : q ∈ route.problems j) :
    q.IsUnicode := by
  have hplain : j.toValue.IsPlain Json.IsShort :=
    ⟨j, rfl, every_of_data Json.holdsOfSpelled_isShort hdata⟩
  cases route with
  | health | parseName => exact absurd hq List.not_mem_nil
  | validate => exact (keeps_mapField .values _ hplain).isUnicode_of_mem_problems hq
  | render | renderYaml =>
    have hkeeps := RenderBody.keeps_read Json.isCommon_isShort.holdsOfWords .values _ hplain
    exact hkeeps.isUnicode_of_mem_problems hq

/-- Where the shape of the data is wrong, it is complained of. -/
lemma handle_of_mem_problems {q : Problem} (hdata : r.data = .ok (some j))
    (hq : q ∈ route.problems j) :
    route.handle r = .error (.unprocessable (complaints j (route.problems j))) := by
  cases route with
  | health | parseName => exact absurd hq List.not_mem_nil
  | validate => exact validate_of_readBody (readBody_of_mem_problems hdata hq)
  | render => exact handle_of_readBody (.inl rfl) (readBody_of_mem_problems hdata hq)
  | renderYaml => exact handle_of_readBody (.inr rfl) (readBody_of_mem_problems hdata hq)

/-- What is answered for a component that is checked. -/
def checkedComponent (c : Component) : Handled :=
  match c.plain with
  | .ok fields => .ok (some (.ofJson 200 (.object fields)))
  | .error _ => .ok none

/-- Checking data: a component is given back in its plain form. -/
lemma validate_of_data {es : List (Value × Value)} (hdata : r.data = .ok (some j))
    (hj : j.toValue = .map es) :
    Http.validate r =
      match Component.ofValue j.toValue with
      | .error e => .error (.detail 400 e.message)
      | .ok c => checkedComponent c := by
  have hbody : r.readBody mapField = .ok es := by
    rw [Request.readBody, hdata]
    simp only [ok_bind, hj, mapField]
    rfl
  rw [validate, hbody, hj]
  simp only [ok_bind, componentOf]
  cases Component.ofValue (.map es) with
  | error e => rfl
  | ok c =>
    simp only [ok_bind, checkedComponent]
    cases c.plain <;> rfl

/-- A checked component is sent if its texts have bytes, since numbers that are not finite are left
out. -/
lemma sent?_checkedComponent (hc : c.toValue.IsPlain Json.HasDistinctNames) :
    sent? (checkedComponent c) = none ∧ ¬ c.toValue.IsPlain Json.IsUnicode ∨
      (∃ response, sent? (checkedComponent c) = some response ∧ response.status = 200) ∧
        c.toValue.IsPlain Json.IsUnicode := by
  obtain ⟨es, hes, hdistinct⟩ := Component.exists_object_of_isPlain hc
  rw [checkedComponent, hes, Value.isPlain_toValue_iff]
  cases hplain : c.plain with
  | error e =>
    -- Only a key without bytes has no plain form.
    refine .inl ⟨rfl, fun hunicode => ?_⟩
    have hnames := Json.Every.imp (fun _ h => h.hasUnicodeNames) _ hunicode
    rw [Component.plain_eq_finite hes hdistinct hnames] at hplain
    cases hplain
  | ok fs =>
    have hnames := Component.hasUnicodeNames_of_plain hes hplain
    rw [Component.plain_eq_finite hes hdistinct hnames] at hplain
    cases hplain
    -- Taking out the numbers that are not finite leaves the texts as they are.
    have hsendable : (Json.object (Json.finiteEntries es)).Every IsSendable ↔
        (Json.object es).Every Json.IsUnicode := by
      rw [← Json.every_finite_iff Json.isOfNames_isUnicode]
      have hfinite := Json.every_isFinite_finite (.object es)
      exact ⟨fun h => Json.Every.imp (fun _ h => h.isUnicode) _ h,
        fun h => Json.Every.imp (fun _ h => ⟨h.1, h.2⟩) _ (Json.Every.and _ h hfinite)⟩
    by_cases hunicode : (Json.object es).Every Json.IsUnicode
    · exact .inr ⟨⟨_, sendable?_ofJson_of_every (hsendable.mpr hunicode), rfl⟩, hunicode⟩
    · exact .inl ⟨sendable?_ofJson_eq_none_iff.mpr (hsendable.not.mpr hunicode), hunicode⟩

/-- Rendering a component as data: its name is checked, then the values. -/
lemma render_of_gives (h : r.Gives c supplied) : Http.render r =
    match GroupVersionKind.parse c.workloadType with
    | .error e => .error (.detail 400 e.message)
    | .ok g =>
      match c.fault? supplied with
      | some e => .error (.detail 400 e.message)
      | none => .ok (some (.ofJson 200 (renderedData c g (c.filledManifest supplied)))) := by
  obtain ⟨j, b, hdata, hbody, hc, rfl⟩ := h
  have hrender := render_of_body hdata hbody
  rw [hc] at hrender
  exact hrender

/-- Rendering a component as YAML: the values are checked. -/
lemma renderYaml_of_gives (h : r.Gives c supplied) : renderYaml r =
    match c.fault? supplied with
    | some e => .error (.detail 400 e.message)
    | none => .ok (some (.ofJson 200 (renderedYaml c (c.filledManifest supplied)))) := by
  obtain ⟨j, b, hdata, hbody, hc, rfl⟩ := h
  have hrender := renderYaml_of_body hdata hbody
  rw [hc] at hrender
  exact hrender

/-- What is checked binds each name once, since the data does. -/
lemma hasDistinctNames_of_data (hdata : r.data = .ok (some j))
    (hc : Component.ofValue j.toValue = .ok c) :
    c.toValue.IsPlain Json.HasDistinctNames :=
  Component.isPlain_of_ofValue Json.isCommon_hasDistinctNames.holdsOfWords
    ⟨j, rfl, every_of_data Json.holdsOfSpelled_hasDistinctNames hdata⟩ hc

/-- No answer is sent that can not be. -/
lemma Request.Unanswerable.sent?_eq_none (h : r.Unanswerable route) :
    sent? (route.handle r) = none := by
  cases h with
  | complaint hdata hq hsend =>
    -- Only what the complaints quote can not be sent.
    rename_i j q
    rw [handle_of_mem_problems hdata hq]
    exact (sendable?_complaints_eq_none_iff fun q hq => isUnicode_of_mem_problems hdata hq).mpr
      ⟨q, hq, hsend⟩
  | component hdata hc hsend =>
    obtain ⟨es, hes⟩ := map_of_ofValue hc
    rw [Route.handle, validate_of_data hdata hes, hc]
    rcases sent?_checkedComponent (hasDistinctNames_of_data hdata hc) with h | h
    · exact h.1
    · exact absurd h.2 hsend
  | refusal hroute hc hname he hsend =>
    -- The two renderings refuse values alike, but a full name is asked for by one of them only.
    rcases hroute with rfl | rfl
    · obtain ⟨g, hg⟩ := hname rfl
      rw [Route.handle, render_of_gives hc, hg]
      simp only [he]
      exact sendable?_detail_eq_none_iff.mpr hsend
    · rw [Route.handle, renderYaml_of_gives hc, he]
      exact sendable?_detail_eq_none_iff.mpr hsend
  | pod hc hg hnone hsend =>
    rw [Route.handle, render_of_gives hc, hg]
    simp only [hnone]
    exact sendable?_ofJson_eq_none_iff.mpr ((every_renderedData_iff hg).not.mpr hsend)
  | file hc hnone hsend =>
    rw [Route.handle, renderYaml_of_gives hc, hnone]
    exact sendable?_ofJson_eq_none_iff.mpr (every_renderedYaml_iff.not.mpr hsend)

/-! ### Answers -/

/-- What is sent for a request to a route: nothing if an answer can not be, what is wrong with a
request that is at fault, or success. -/
inductive Request.Answer (r : Request) (route : Route) : Option Response → Prop
  | none (h : r.Unanswerable route) : r.Answer route none
  | refused {response : Response} (hfault : r.Faulty route)
      (h : response.status = 400 ∨ response.status = 422) : r.Answer route (some response)
  | accepted {response : Response} (hfault : ¬ r.Faulty route) (h : response.status = 200) :
      r.Answer route (some response)

lemma answer_refusal (hfault : r.Faulty route) (h : response.status = 400 ∨ response.status = 422)
    (hsent : response.sendable? = some response) : r.Answer route response.sendable? := by
  rw [hsent]
  exact .refused hfault h

/-- A detail answers a faulty request, unless it can not be sent. -/
lemma answer_detail (hfault : r.Faulty route) (h : ¬ message.IsUnicode → r.Unanswerable route) :
    r.Answer route (Response.detail 400 message).sendable? := by
  by_cases hmessage : message.IsUnicode
  · exact answer_refusal hfault (.inl rfl) (sendable?_detail_of_isUnicode hmessage)
  · rw [sendable?_detail_eq_none_iff.mpr hmessage]
    exact .none (h hmessage)

/-- Data answers a request without a fault, unless it can not be sent. -/
lemma answer_ofJson (hfault : ¬ r.Faulty route) (h : ¬ j.Every IsSendable → r.Unanswerable route) :
    r.Answer route (Response.ofJson 200 j).sendable? := by
  by_cases hj : j.Every IsSendable
  · rw [sendable?_ofJson_of_every hj]
    exact .accepted hfault rfl
  · rw [sendable?_ofJson_eq_none_iff.mpr hj]
    exact .none (h hj)

/-- Complaints answer a faulty request, unless what they quote can not be sent. -/
lemma answer_complaints (hfault : r.Faulty route) (hdata : r.data = .ok (some j)) :
    r.Answer route (Response.unprocessable (complaints j (route.problems j))).sendable? := by
  cases hsent : (Response.unprocessable (complaints j (route.problems j))).sendable? with
  | some response =>
    rw [eq_of_sendable? hsent]
    exact .refused hfault (.inr rfl)
  | none =>
    obtain ⟨q, hq, h⟩ :=
      (sendable?_complaints_eq_none_iff fun q hq => isUnicode_of_mem_problems hdata hq).mp hsent
    exact .none (.complaint hdata hq h)

/-- A component that is rendered has a full name and values that are its own. -/
lemma Request.Gives.not_faulty (hc : r.Gives c supplied) (hroute : route.IsRendering)
    (hname : route = .render → ∃ g, GroupVersionKind.parse c.workloadType = .ok g)
    (hnone : c.fault? supplied = none) : ¬ r.Faulty route := by
  intro h
  cases h with
  | document _ | name _ => rcases hroute with h | h <;> cases h
  | body _ h => exact h c supplied hc
  | workloadType hc' he =>
    obtain ⟨rfl, rfl⟩ := gives_unique hc hc'
    obtain ⟨g, hg⟩ := hname rfl
    rw [hg] at he
    cases he
  | values _ hc' he =>
    obtain ⟨rfl, rfl⟩ := gives_unique hc hc'
    rw [hnone] at he
    cases he

/-- A body that a route does not take is refused. -/
lemma answer_of_readBody {α : Type} {read : FieldReader α} (hfault : r.Faulty route)
    (hproblems : ∀ j, route.problems j = (read .values j.toValue).problems)
    (hhandle : ∀ response, r.readBody read = .error response → route.handle r = .error response)
    (h : ∀ j a, r.data = .ok (some j) → read .values j.toValue = .valid a →
      r.Answer route (sent? (route.handle r))) :
    r.Answer route (sent? (route.handle r)) := by
  rcases readBody_cases r read with
    ⟨j, a, hdata, hread, -⟩ | ⟨j, ps, hdata, hread, hbody⟩ | ⟨-, response, hbody, hstatus, hsent⟩
  · exact h j a hdata hread
  · have hps : route.problems j = ps := by
      rw [hproblems, hread]
      rfl
    rw [hhandle _ hbody, ← hps]
    exact answer_complaints hfault hdata
  · rw [hhandle _ hbody]
    exact answer_refusal hfault hstatus hsent

/-- What is to be a component and is none is refused by a message that has bytes. -/
lemma answer_readError {p : Json → Prop} (hp : Json.HoldsOfWords p) {v : Value}
    {e : Component.ReadError} (hfault : r.Faulty route) (hv : v.IsPlain p)
    (he : Component.ofValue v = .error e) :
    r.Answer route (Response.detail 400 e.message).sendable? :=
  answer_detail hfault fun hnone => absurd (Component.isUnicode_of_ofValue hp hv he) hnone

/-- A body to render that gives no component is refused. -/
lemma answer_rendering (hroute : route.IsRendering)
    (h : ∀ c supplied, r.Gives c supplied → r.Answer route (sent? (route.handle r))) :
    r.Answer route (sent? (route.handle r)) := by
  by_cases hgives : ∃ c supplied, r.Gives c supplied
  · obtain ⟨c, supplied, hc⟩ := hgives
    exact h c supplied hc
  · have hfault : r.Faulty route := .body hroute fun c supplied hc => hgives ⟨c, supplied, hc⟩
    have hproblems (j : Json) : route.problems j
        = (RenderBody.read .values j.toValue).problems := by
      rcases hroute with rfl | rfl <;> rfl
    refine answer_of_readBody hfault hproblems (fun _ => handle_of_readBody hroute)
      fun j b hdata hbody => ?_
    cases hc : Component.ofValue b.component with
    | ok c => exact absurd ⟨c, _, j, b, hdata, hbody, hc, rfl⟩ hgives
    | error e =>
      have hhandle : route.handle r = .error (.detail 400 e.message) := by
        rcases hroute with rfl | rfl
        · rw [Route.handle, render_of_body hdata hbody, hc]
        · rw [Route.handle, renderYaml_of_body hdata hbody, hc]
      have hp := Json.isCommon_isShort.holdsOfWords
      have hshort := every_of_data Json.holdsOfSpelled_isShort hdata
      rw [hhandle]
      exact answer_readError hp hfault (isPlain_of_body hbody hp hshort).1 hc

/-- The rendering as data answers as the route does. -/
lemma answer_render : r.Answer .render (sent? (Route.render.handle r)) := by
  refine answer_rendering (.inl rfl) fun c supplied hc => ?_
  rw [Route.handle, render_of_gives hc]
  cases hg : GroupVersionKind.parse c.workloadType with
  | error e =>
    exact answer_detail (.workloadType hc hg)
      fun hnone => absurd (FormatError.isUnicode_message e) hnone
  | ok g =>
    cases hfault : c.fault? supplied with
    | some e =>
      exact answer_detail (.values (.inl rfl) hc hfault)
        (.refusal (.inl rfl) hc (fun _ => ⟨g, hg⟩) hfault)
    | none =>
      refine answer_ofJson (hc.not_faulty (.inl rfl) (fun _ => ⟨g, hg⟩) hfault) fun h => ?_
      exact .pod hc hg hfault ((every_renderedData_iff hg).not.mp h)

/-- The rendering as a file answers as the route does. -/
lemma answer_renderYaml : r.Answer .renderYaml (sent? (Route.renderYaml.handle r)) := by
  refine answer_rendering (.inr rfl) fun c supplied hc => ?_
  rw [Route.handle, renderYaml_of_gives hc]
  cases hfault : c.fault? supplied with
  | some e =>
    exact answer_detail (.values (.inr rfl) hc hfault)
      (.refusal (.inr rfl) hc (fun h => nomatch h) hfault)
  | none =>
    refine answer_ofJson (hc.not_faulty (.inr rfl) (fun h => nomatch h) hfault) fun h => ?_
    exact .file hc hfault (every_renderedYaml_iff.not.mp h)

/-- The check of a component answers as the route does. -/
lemma answer_validate : r.Answer .validate (sent? (Route.validate.handle r)) := by
  by_cases hcomponent : ∃ j c, r.data = .ok (some j) ∧ Component.ofValue j.toValue = .ok c
  · obtain ⟨j, c, hdata, hc⟩ := hcomponent
    obtain ⟨es, hes⟩ := map_of_ofValue hc
    have hfault : ¬ r.Faulty .validate := by
      intro h
      cases h with
      | document h => exact h j c hdata hc
      | body hroute _ | values hroute _ _ => rcases hroute with h | h <;> cases h
    rw [Route.handle, validate_of_data hdata hes, hc]
    rcases sent?_checkedComponent (hasDistinctNames_of_data hdata hc) with
      ⟨hnone, hunicode⟩ | ⟨⟨response, hsent, hstatus⟩, -⟩
    · exact hnone ▸ .none (.component hdata hc hunicode)
    · exact hsent ▸ .accepted hfault hstatus
  · have hfault : r.Faulty .validate := .document fun j c hdata hc => hcomponent ⟨j, c, hdata, hc⟩
    refine answer_of_readBody hfault (fun _ => rfl) (fun _ => validate_of_readBody)
      fun j es hdata hread => ?_
    rw [Route.handle, validate_of_data hdata (map_of_mapField hread)]
    cases hc : Component.ofValue j.toValue with
    | ok c => exact absurd ⟨j, c, hdata, hc⟩ hcomponent
    | error e =>
      have hshort := every_of_data Json.holdsOfSpelled_isShort hdata
      exact answer_readError Json.isCommon_isShort.holdsOfWords hfault ⟨j, rfl, hshort⟩ hc

/-- The reading of a name answers as the route does. -/
lemma answer_parseName {query : Text} (hquery : r.query = queryPairs query) :
    r.Answer .parseName (sent? (Route.parseName.handle r)) := by
  rw [Route.handle, parseName]
  cases hvalue : r.parameter? "value" with
  | none =>
    -- No value is given at all, which is answered by 422.
    have hfault : r.Faulty .parseName := .name fun t g ht => by
      rw [hvalue] at ht
      cases ht
    exact .refused hfault (.inr rfl)
  | some t =>
    have ht := isUnicode_of_parameter? hquery hvalue
    simp only [fullName]
    cases hparse : GroupVersionKind.parse t with
    | error e =>
      -- The value is no full name, which is answered by 400.
      have hfault : r.Faulty .parseName := .name fun t' g ht' => by
        rw [hvalue] at ht'
        cases ht'
        rw [hparse]
        simp
      exact answer_detail hfault fun hnone => absurd (FormatError.isUnicode_message e) hnone
    | ok g =>
      have hfault : ¬ r.Faulty .parseName := by
        -- The route has no other fault than a name that can not be parsed.
        intro h
        cases h with
        | name h => exact h t g hvalue hparse
        | body hroute _ | values hroute _ _ => rcases hroute with h | h <;> cases h
      have hsend := every_nameJson (GroupVersionKind.isUnicode_of_parse hparse ht)
      exact answer_ofJson hfault fun hnone => absurd hsend hnone

lemma answer_health : r.Answer .health (sent? (Route.health.handle r)) := by
  refine .accepted (fun h => ?_) rfl
  cases h with
  | body hroute _ | values hroute _ _ => rcases hroute with h | h <;> cases h

/-- Every route answers. -/
lemma answer_handle {query : Text} (hquery : r.query = queryPairs query) :
    r.Answer route (sent? (route.handle r)) := by
  cases route with
  | health => exact answer_health
  | validate => exact answer_validate
  | render => exact answer_render
  | renderYaml => exact answer_renderYaml
  | parseName => exact answer_parseName hquery

/-! ### What can be sent back -/

/-- Data without halves of surrogate pairs is answered for if its numbers are finite or its shape is
right. -/
lemma not_unanswerable (hdata : r.data = .ok (some j)) (hj : j.Every Json.IsUnicode)
    (hfinite : j.Every Json.IsFinite ∨ route.problems j = []) : ¬ r.Unanswerable route := by
  have hp := Json.holdsOfWords_isUnicode
  -- The component and its values come from the data, so their texts have bytes.
  have hgives {c : Component} {supplied : Bindings} (hc : r.Gives c supplied) :
      c.toValue.IsPlain Json.IsUnicode ∧ (∀ b ∈ supplied, b.1.IsUnicode) ∧
        ∀ b ∈ supplied, b.2.IsPlain Json.IsUnicode := by
    obtain ⟨j', b, hdata', hbody, hc, rfl⟩ := hc
    obtain rfl := data_unique hdata hdata'
    obtain ⟨hcomponent, hsupplied⟩ := isPlain_of_body hbody hp hj
    exact ⟨Component.isPlain_of_ofValue hp hcomponent hc, isUnicode_names_of_body hbody hj,
      hsupplied⟩
  intro h
  -- The answer that can not be sent would quote, repeat or render what can be sent.
  cases h with
  | complaint hdata' hq h =>
    obtain rfl := data_unique hdata hdata'
    rcases hfinite with hfinite | hnone
    · exact h
        (every_inputAt (Json.Every.imp (fun _ h => ⟨h.1, h.2⟩) _ (Json.Every.and _ hj hfinite)))
    · rw [hnone] at hq
      exact absurd hq List.not_mem_nil
  | component hdata' hc h =>
    obtain rfl := data_unique hdata hdata'
    exact h (Component.isPlain_of_ofValue hp ⟨_, rfl, hj⟩ hc)
  | refusal _ hc _ he h =>
    obtain ⟨hplain, hnames, -⟩ := hgives hc
    exact h (Component.isUnicode_of_fault? hplain hnames he)
  | pod hc _ _ h =>
    obtain ⟨hplain, -, hsupplied⟩ := hgives hc
    exact h ⟨((Component.isPlain_iff hp).mp hplain).1,
      Component.every_isUnicode_filledManifest hplain hsupplied⟩
  | file hc _ h => exact h (Component.isUnicode_manifestFilename (hgives hc).1)

/-! ### The status of an answer -/

/-- The status of the answer to a request to a route: the service fails if the answer can not be
sent, tells the client of a fault of the request, and succeeds on a request without fault. -/
structure Request.Status (r : Request) (route : Route) (status : Nat) : Prop where
  failed_iff : status = 500 ↔ r.Unanswerable route
  refused : ¬ r.Unanswerable route → r.Faulty route → status = 400 ∨ status = 422
  accepted : ¬ r.Unanswerable route → ¬ r.Faulty route → status = 200

end Http

end Schematic
