import Schematic.Http.Service
import Schematic.Proofs.Component.Reading

/-!
# What can be sent

Data is sent if its texts have bytes and its numbers are finite. The service fails on a request if
the answer can not be sent, and only then: calls from other origins do not change the status or the
content of an answer.
-/

namespace Schematic

/-- A part of data that can be sent: a text or names that have bytes, or a number that is finite. -/
structure Json.IsSendable (j : Json) : Prop where
  isUnicode : j.IsUnicode
  isFinite : j.IsFinite

/-- That data can be sent holds of the words of a component. -/
lemma Json.holdsOfWords_isSendable : HoldsOfWords IsSendable where
  null := ⟨trivial, trivial⟩
  bool _ := ⟨trivial, trivial⟩
  int32 _ := ⟨trivial, trivial⟩
  array _ := ⟨trivial, trivial⟩
  object es h := ⟨holdsOfWords_isUnicode.object es h, trivial⟩
  word s := ⟨Text.isUnicode_ofString s, trivial⟩

namespace Http

open Json (Every EveryItem EveryEntry IsSendable)

mutual

/-- Data is checked to be sendable part by part. -/
lemma isSendable_iff (j : Json) : isSendable j = true ↔ j.Every IsSendable := by
  match j with
  | .null | .bool _ | .int _ => exact iff_of_true rfl ⟨trivial, trivial⟩
  | .float x => exact ⟨fun h => ⟨trivial, h⟩, fun h => h.isFinite⟩
  | .text t =>
    rw [isSendable, Text.isSome_chars?_iff]
    exact ⟨fun h => ⟨h, trivial⟩, fun h => h.isUnicode⟩
  | .array js =>
    rw [isSendable, areSendable_iff js]
    exact ⟨fun h => ⟨⟨trivial, trivial⟩, h⟩, fun h => h.2⟩
  | .object es =>
    rw [isSendable, areEntriesSendable_iff es]
    exact ⟨fun h => ⟨⟨h.1, trivial⟩, h.2⟩, fun h => ⟨h.1.isUnicode, h.2⟩⟩

lemma areSendable_iff (js : List Json) : areSendable js = true ↔ EveryItem IsSendable js := by
  match js with
  | [] => exact iff_of_true rfl trivial
  | j :: js => rw [areSendable, Bool.and_eq_true, isSendable_iff j, areSendable_iff js, EveryItem]

/-- Entries can be sent if their names have bytes and their values can be sent. -/
lemma areEntriesSendable_iff (es : List (Text × Json)) :
    areEntriesSendable es = true ↔ (∀ e ∈ es, e.1.IsUnicode) ∧ EveryEntry IsSendable es := by
  match es with
  | [] => exact iff_of_true rfl ⟨by simp, trivial⟩
  | (k, j) :: es =>
    rw [areEntriesSendable, Bool.and_eq_true, Bool.and_eq_true, Text.isSome_chars?_iff,
      isSendable_iff j, areEntriesSendable_iff es, EveryEntry, List.forall_mem_cons]
    tauto

end

/-! ### Responses -/

variable {status : Nat} {j : Json} {message : Text} {r : Request}

/-- What is sent for what comes of a request. -/
def sent? : Handled → Option Response
  | .ok response => response.bind Response.sendable?
  | .error refusal => refusal.sendable?

lemma sendable?_ofJson : (Response.ofJson status j).sendable? =
    if isSendable j = true then some (Response.ofJson status j) else none := rfl

lemma sendable?_ofJson_eq_none_iff :
    (Response.ofJson status j).sendable? = none ↔ ¬ j.Every IsSendable := by
  rw [sendable?_ofJson, ← isSendable_iff]
  split <;> simp_all

lemma sendable?_ofJson_of_every (h : j.Every IsSendable) :
    (Response.ofJson status j).sendable? = some (.ofJson status j) := by
  rw [sendable?_ofJson, if_pos ((isSendable_iff j).mpr h)]

/-- Data of one field is sent if the field is. -/
lemma every_singleton_iff {p : Json → Prop} (hp : Json.HoldsOfWords p) {name : Text} {j : Json}
    (hname : name.IsFieldName) : (Json.object [(name, j)]).Every p ↔ j.Every p := by
  have hobject : p (.object [(name, j)]) :=
    hp.object _ ⟨List.pairwise_singleton _ _, by simpa using hname⟩
  exact ⟨fun h => h.2.1, fun h => ⟨hobject, h, trivial⟩⟩

lemma every_detail_iff :
    (Json.object [("detail", .text message)]).Every IsSendable ↔ message.IsUnicode :=
  (every_singleton_iff Json.holdsOfWords_isSendable (by decide)).trans
    ⟨fun h => h.isUnicode, fun h => ⟨h, trivial⟩⟩

lemma sendable?_detail_eq_none_iff :
    (Response.detail status message).sendable? = none ↔ ¬ message.IsUnicode :=
  sendable?_ofJson_eq_none_iff.trans (not_congr every_detail_iff)

lemma sendable?_detail_of_isUnicode (h : message.IsUnicode) :
    (Response.detail status message).sendable? = some (.detail status message) :=
  sendable?_ofJson_of_every (every_detail_iff.mpr h)

/-- A response is sent as it is, or not at all. -/
lemma eq_of_sendable? {response sent : Response} (h : response.sendable? = some sent) :
    sent = response := by
  unfold Response.sendable? at h
  split at h
  · exact (Option.some.inj h).symm
  · split at h
    · exact (Option.some.inj h).symm
    · cases h

/-! ### Complaints -/

lemma Cause.isUnicode_code (c : Cause) : c.code.IsUnicode := by
  cases c <;> exact Text.isUnicode_ofString _

/-- A complaint can be sent if the part can that it is about. -/
lemma every_complaint_iff {c : Complaint} (h : c.problem.IsUnicode) :
    c.toJson.Every IsSendable ↔ c.input.Every IsSendable := by
  have hpath : (Json.array (c.problem.path.map stepJson)).Every IsSendable := by
    refine ⟨⟨trivial, trivial⟩,
      Json.everyItem_iff.mpr (List.forall_mem_map.mpr fun step hstep => ?_)⟩
    cases step with
    | name t => exact ⟨h.path _ hstep, trivial⟩
    | index i => exact ⟨trivial, trivial⟩
  have hobject : (Json.object [("type", .text c.problem.cause.code),
      ("loc", .array (c.problem.path.map stepJson)), ("msg", .text c.problem.cause.message),
      ("input", c.input)]).IsSendable := by
    refine Json.holdsOfWords_isSendable.object _ ?_
    show Text.AreFieldNames ["type", "loc", "msg", "input"]
    decide
  constructor
  · exact fun h => h.2.2.2.2.1
  · exact fun hinput =>
      ⟨hobject, ⟨Cause.isUnicode_code _, trivial⟩, hpath, ⟨h.message, trivial⟩, hinput, trivial⟩

/-- Complaints can be sent if all the parts can that they are about. -/
lemma sendable?_unprocessable_eq_none_iff {cs : List Complaint}
    (h : ∀ c ∈ cs, c.problem.IsUnicode) :
    (Response.unprocessable cs).sendable? = none ↔ ∃ c ∈ cs, ¬ c.input.Every IsSendable := by
  have hlist : (Json.array (cs.map Complaint.toJson)).Every IsSendable ↔
      ∀ c ∈ cs, c.input.Every IsSendable := by
    have hitems : EveryItem IsSendable (cs.map Complaint.toJson) ↔
        ∀ c ∈ cs, c.input.Every IsSendable := by
      rw [Json.everyItem_iff, List.forall_mem_map]
      exact forall₂_congr fun c hc => every_complaint_iff (h c hc)
    exact ⟨fun hs => hitems.mp hs.2, fun hs => ⟨⟨trivial, trivial⟩, hitems.mpr hs⟩⟩
  rw [Response.unprocessable, sendable?_ofJson_eq_none_iff,
    every_singleton_iff Json.holdsOfWords_isSendable (by decide), hlist]
  simp only [not_forall, exists_prop]

/-- A complaint can be sent if what it quotes can be. -/
lemma sendable?_complaint {c : Complaint} (hc : c.problem.IsUnicode)
    (hinput : c.input.Every IsSendable) :
    (Response.unprocessable [c]).sendable? = some (.unprocessable [c]) := by
  cases hsent : (Response.unprocessable [c]).sendable? with
  | some response => rw [eq_of_sendable? hsent]
  | none =>
    obtain ⟨c', hc', hinput'⟩ := (sendable?_unprocessable_eq_none_iff (by simpa using hc)).mp hsent
    rw [List.mem_singleton.mp hc'] at hinput'
    exact absurd hinput hinput'

/-- Complaints about data can be sent if all the parts of it can that they are about. -/
lemma sendable?_complaints_eq_none_iff {ps : List Problem} (h : ∀ q ∈ ps, q.IsUnicode) :
    (Response.unprocessable (complaints j ps)).sendable? = none ↔
      ∃ q ∈ ps, ¬ (inputAt q.path j).Every IsSendable := by
  have hcomplaints : ∀ c ∈ complaints j ps, c.problem.IsUnicode := by
    refine List.forall_mem_map.mpr fun q hq => ⟨?_, (h q hq).message⟩
    exact List.forall_mem_cons.mpr ⟨Text.isUnicode_ofString _, (h q hq).path⟩
  rw [sendable?_unprocessable_eq_none_iff hcomplaints, complaints]
  simp only [List.mem_map, exists_exists_and_eq_and]

/-- The part of data at a path is part of the data. -/
lemma every_inputAt {p : Json → Prop} {path : List PathStep} (h : j.Every p) :
    (inputAt path j).Every p := by
  induction path generalizing j with
  | nil =>
    rw [inputAt]
    · exact h
    · exact fun t path hpath => nomatch hpath
  | cons step path ih =>
    cases step with
    | index i =>
      rw [inputAt]
      · exact h
      · exact fun t path hpath => nomatch hpath
    | name t =>
      rw [inputAt]
      split
      · next part hpart =>
        cases j with
        | object es =>
          obtain ⟨e, he, rfl⟩ := Option.map_eq_some_iff.mp hpart
          exact ih (Json.everyEntry_iff.mp h.2 e (List.mem_of_find?_eq_some he))
        | _ => cases hpart
      · exact h

/-! ### Routes -/

variable {route : Route}

lemma Route.ofPath?_path (route : Route) : ofPath? route.path = some route := by
  cases route <;> decide

lemma respond_eq (hmethod : r.method = route.method) (hpath : r.path = route.path) :
    respond r = sent? (route.handle r) := by
  rw [respond, hpath, route.ofPath?_path]
  simp only [hmethod, bne_self_eq_false, Bool.false_eq_true, if_false]
  cases route.handle r <;> rfl

/-- The origin of a call adds headers to the answer, and changes neither its status nor its
content. -/
lemma serve_eq (origins : List Text) (hmethod : r.method = route.method)
    (hpath : r.path = route.path) :
    ∃ headers, serve origins r =
      { (sent? (route.handle r)).getD .serverError with headers } := by
  have hoptions : r.method ≠ Text.ofString "OPTIONS" := by
    rw [hmethod]
    cases route <;> decide
  have hheaders (origin : Text) : ∃ headers, (Cors.around.withHeaders origins respond r origin).getD
      .serverError = { (sent? (route.handle r)).getD .serverError with headers } := by
    rw [Cors.around.withHeaders, respond_eq hmethod hpath]
    cases sent? (route.handle r) with
    | none => exact ⟨_, rfl⟩
    | some response => exact ⟨_, rfl⟩
  unfold serve Cors.around
  split
  · rw [respond_eq hmethod hpath]
    exact ⟨_, rfl⟩
  · split
    · rw [if_neg hoptions]
      exact hheaders _
    · exact hheaders _

end Http

end Schematic
