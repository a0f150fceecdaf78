import Mathlib.Tactic.Lemma
import Mathlib.Tactic.SplitIfs
import Schematic.Proofs.Fault
import Schematic.Yaml.Reader

/-!
# Documents whose words break off

A reader of nodes only takes tokens off its state, and where it fails it refuses the document, or
the reading of the words has failed. A document ends where the end of the stream is, which is no
token of its own but what comes after the last one; so a document of whose words the reading fails
has no node.
-/

namespace Schematic.Yaml

variable {α β : Type}

namespace NodeReader

/-- A reader takes tokens off a state, if it succeeds. -/
def Advances (x : NodeReader α) : Prop :=
  ∀ s a s', x s = .ok (a, s') →
    s'.tokens.stop = s.tokens.stop ∧ s'.tokens.ready ⊆ s.tokens.ready

/-- A reader that fails refuses the document, or fails as the reading of the words did. -/
def FailsAsWords (x : NodeReader α) : Prop :=
  ∀ s f, x s = .error f → (∃ e, f = .refused e) ∨ s.tokens.stop = .error f

/-- A reader takes tokens off a state, and has no failures of other kinds than refusals. -/
structure Takes (x : NodeReader α) : Prop where
  advances : Advances x
  fails : FailsAsWords x

/-! ### Steps -/

/-- Readers one after the other take what each takes. -/
lemma bind_inversion {x : NodeReader α} {f : α → NodeReader β} {s s' : NodeState} {b : β}
    (h : (x >>= f) s = .ok (b, s')) : ∃ a u, x s = .ok (a, u) ∧ f a u = .ok (b, s') := by
  change (x s >>= fun p => f p.1 p.2) = .ok (b, s') at h
  cases hx : x s with
  | error e =>
    rw [hx] at h
    cases h
  | ok p =>
    rw [hx] at h
    exact ⟨p.1, p.2, rfl, h⟩

lemma Advances.bind {x : NodeReader α} {f : α → NodeReader β} (hx : Advances x)
    (hf : ∀ a, Advances (f a)) : Advances (x >>= f) := by
  intro s b s' h
  obtain ⟨a, u, ha, hb⟩ := bind_inversion h
  obtain ⟨hstop, hready⟩ := hx s a u ha
  obtain ⟨hstop', hready'⟩ := hf a u b s' hb
  exact ⟨hstop'.trans hstop, List.Subset.trans hready' hready⟩

lemma Takes.bind {x : NodeReader α} {f : α → NodeReader β} (hx : Takes x)
    (hf : ∀ a, Takes (f a)) : Takes (x >>= f) := by
  refine ⟨hx.advances.bind fun a => (hf a).advances, fun s e h => ?_⟩
  change (x s >>= fun p => f p.1 p.2) = .error e at h
  cases hs : x s with
  | error e' =>
    rw [hs] at h
    cases h
    exact hx.fails s e hs
  | ok p =>
    rw [hs] at h
    rw [← (hx.advances s p.1 p.2 hs).1]
    exact (hf p.1).fails p.2 e h

lemma takes_pure (a : α) : Takes (pure a) := by
  constructor
  · rintro s _ _ ⟨⟩
    exact ⟨rfl, List.Subset.refl _⟩
  · rintro s _ ⟨⟩

lemma takes_peek : Takes peek := by
  have hpeek (s : NodeState) : peek s = s.tokens.peek.map (·, s) := by
    change (s.tokens.peek >>= fun t => Except.ok (t, s)) = _
    cases s.tokens.peek <;> rfl
  constructor
  · -- Peeking leaves the state as it was.
    intro s a s' h
    rw [hpeek] at h
    cases ht : s.tokens.peek with
    | error e =>
      rw [ht] at h
      cases h
    | ok t =>
      rw [ht] at h
      cases h
      exact ⟨rfl, List.Subset.refl _⟩
  · -- It fails by what stopped the tokens, when none of them is left.
    intro s e h
    rw [hpeek, Tokens.peek] at h
    cases hready : s.tokens.ready with
    | cons t ts =>
      rw [hready] at h
      cases h
    | nil =>
      cases hstop : s.tokens.stop with
      | ok m =>
        rw [hready, hstop] at h
        cases h
      | error e' =>
        rw [hready, hstop] at h
        cases h
        exact .inr rfl

lemma takes_skip : Takes skip := by
  constructor
  · rintro s _ _ ⟨⟩
    exact ⟨rfl, fun t ht => List.mem_of_mem_tail ht⟩
  · rintro s _ ⟨⟩

lemma takes_get : Takes (get : NodeReader NodeState) := by
  constructor
  · rintro s _ _ ⟨⟩
    exact ⟨rfl, List.Subset.refl _⟩
  · rintro s _ ⟨⟩

lemma takes_modify {f : NodeState → NodeState} (h : ∀ s, (f s).tokens = s.tokens) :
    Takes (modify f) := by
  constructor
  · rintro s _ _ ⟨⟩
    rw [h]
    exact ⟨rfl, List.Subset.refl _⟩
  · rintro s _ ⟨⟩

lemma takes_throw (e : Error) : Takes (throw (.refused e) : NodeReader α) := by
  constructor
  · rintro s _ _ ⟨⟩
  · rintro s _ ⟨⟩
    exact .inl ⟨e, rfl⟩

lemma takes_refuse (context : Option Context) (since : Option Mark) (problem : Problem)
    (mark : Mark) : Takes (refuse context since problem mark : NodeReader α) :=
  takes_throw _

lemma takes_refuseNode (context : Option Context) (since : Option Mark) (problem : Problem)
    (mark : Mark) : Takes (refuseNode context since problem mark : NodeReader α) :=
  takes_throw _

/-! ### Properties of nodes -/

lemma takes_tagName (start mark : Mark) (handle : Option Text) (suffix : Text) :
    Takes (tagName start mark handle suffix) := by
  unfold tagName
  split
  · exact takes_pure _
  · refine takes_get.bind fun s => ?_
    split
    · exact takes_pure _
    · exact takes_refuse _ _ _ _

lemma takes_properties : Takes properties := by
  unfold properties
  refine takes_peek.bind fun t => ?_
  split
  · refine takes_skip.bind fun _ => takes_peek.bind fun u => ?_
    split
    · exact takes_skip.bind fun _ => (takes_tagName _ _ _ _).bind fun _ => takes_pure _
    · exact takes_pure _
  · refine takes_skip.bind fun _ => takes_peek.bind fun u => ?_
    split
    · exact takes_skip.bind fun _ => (takes_tagName _ _ _ _).bind fun _ => takes_pure _
    · exact (takes_tagName _ _ _ _).bind fun _ => takes_pure _
  · exact takes_pure _

lemma takes_openAnchor (name : Option Text) (start : Mark) : Takes (openAnchor name start) := by
  unfold openAnchor
  split
  · refine takes_get.bind fun s => ?_
    split
    · exact takes_refuseNode _ _ _ _
    · exact takes_modify fun _ => rfl
  · exact takes_pure _

lemma takes_closeAnchor (name : Option Text) (n : Node) : Takes (closeAnchor name n) := by
  unfold closeAnchor
  split
  · refine Takes.bind (takes_modify ?_) fun _ => takes_pure n
    exact fun _ => rfl
  · exact takes_pure _

lemma takes_aliased (name : Text) (mark : Mark) : Takes (aliased name mark) := by
  unfold aliased
  refine takes_get.bind fun s => ?_
  split
  · exact takes_refuseNode _ _ _ _
  · exact takes_pure _
  · exact takes_refuseNode _ _ _ _

/-! ### Collections -/

/-- All readers of the grammar with some fuel take tokens off. -/
structure AllTake (fuel : Nat) : Prop where
  node : ∀ block indentless, Takes (node block indentless fuel)
  blockItems : ∀ since, Takes (blockItems since fuel)
  indentlessItems : Takes (indentlessItems fuel)
  blockPart : ∀ announced, Takes (blockPart announced fuel)
  blockValue : Takes (blockValue fuel)
  blockEntries : ∀ since, Takes (blockEntries since fuel)
  flowKey : ∀ isClose announced, Takes (flowKey isClose announced fuel)
  flowValue : ∀ isClose, Takes (flowValue isClose fuel)
  flowItems : ∀ since isFirst, Takes (flowItems since isFirst fuel)
  flowEntries : ∀ since isFirst, Takes (flowEntries since isFirst fuel)

variable {fuel : Nat}

/-- A node is taken with one more level of fuel. -/
lemma AllTake.succ_node (h : AllTake fuel) (block indentless : Bool) :
    Takes (NodeReader.node block indentless (fuel + 1)) := by
  rw [NodeReader.node]
  refine takes_peek.bind fun t => ?_
  split
  · exact takes_skip.bind fun _ => takes_aliased _ _
  · refine takes_properties.bind fun p => takes_peek.bind fun u => ?_
    dsimp only
    split
    · exact (takes_openAnchor _ _).bind fun _ => h.indentlessItems.bind fun _ =>
        takes_closeAnchor _ _
    · exact takes_skip.bind fun _ => (takes_openAnchor _ _).bind fun _ =>
        takes_closeAnchor _ _
    · exact (takes_openAnchor _ _).bind fun _ => takes_skip.bind fun _ =>
        (h.flowItems _ _).bind fun _ => takes_closeAnchor _ _
    · exact (takes_openAnchor _ _).bind fun _ => takes_skip.bind fun _ =>
        (h.flowEntries _ _).bind fun _ => takes_closeAnchor _ _
    · exact (takes_openAnchor _ _).bind fun _ => takes_skip.bind fun _ =>
        (h.blockItems _).bind fun _ => takes_closeAnchor _ _
    · exact (takes_openAnchor _ _).bind fun _ => takes_skip.bind fun _ =>
        (h.blockEntries _).bind fun _ => takes_closeAnchor _ _
    · split
      · exact (takes_openAnchor _ _).bind fun _ => takes_closeAnchor _ _
      · exact takes_refuse _ _ _ _

/-- Items of a block are taken with one more level of fuel. -/
lemma AllTake.succ_blockItems (h : AllTake fuel) (since : Mark) :
    Takes (NodeReader.blockItems since (fuel + 1)) := by
  rw [NodeReader.blockItems]
  refine takes_peek.bind fun t => ?_
  split
  · refine takes_skip.bind fun _ => takes_peek.bind fun u => ?_
    have hrest (n : Node) : Takes (do
        let items ← NodeReader.blockItems since fuel
        pure (n :: items)) := (h.blockItems since).bind fun _ => takes_pure _
    dsimp only
    split
    · exact (takes_pure _).bind hrest
    · exact (takes_pure _).bind hrest
    · exact (h.node _ _).bind hrest
  · exact takes_skip.bind fun _ => takes_pure _
  · exact takes_refuse _ _ _ _

lemma AllTake.succ_indentlessItems (h : AllTake fuel) :
    Takes (NodeReader.indentlessItems (fuel + 1)) := by
  rw [NodeReader.indentlessItems]
  refine takes_peek.bind fun t => ?_
  split
  · refine takes_skip.bind fun _ => takes_peek.bind fun u => ?_
    have hrest (n : Node) : Takes (do
        let items ← NodeReader.indentlessItems fuel
        pure (n :: items)) := h.indentlessItems.bind fun _ => takes_pure _
    dsimp only
    split
    · exact (takes_pure _).bind hrest
    · exact (takes_pure _).bind hrest
    · exact (takes_pure _).bind hrest
    · exact (takes_pure _).bind hrest
    · exact (h.node _ _).bind hrest
  · exact takes_pure _

/-- Entries of a block are taken with one more level of fuel. -/
lemma AllTake.succ_blockEntries (h : AllTake fuel) (since : Mark) :
    Takes (NodeReader.blockEntries since (fuel + 1)) := by
  rw [NodeReader.blockEntries]
  refine takes_peek.bind fun t => ?_
  split
  · exact takes_skip.bind fun _ => (h.blockPart _).bind fun _ => h.blockValue.bind fun _ =>
      (h.blockEntries _).bind fun _ => takes_pure _
  · exact takes_skip.bind fun _ => takes_pure _
  · exact takes_refuse _ _ _ _

lemma AllTake.succ_blockPart (h : AllTake fuel) (announced : Mark) :
    Takes (NodeReader.blockPart announced (fuel + 1)) := by
  rw [NodeReader.blockPart]
  refine takes_peek.bind fun t => ?_
  split
  · exact takes_pure _
  · exact takes_pure _
  · exact takes_pure _
  · exact h.node _ _

lemma AllTake.succ_blockValue (h : AllTake fuel) :
    Takes (NodeReader.blockValue (fuel + 1)) := by
  rw [NodeReader.blockValue]
  refine takes_peek.bind fun t => ?_
  split
  · exact takes_skip.bind fun _ => h.blockPart _
  · exact takes_pure _

lemma AllTake.succ_flowKey (h : AllTake fuel) (isClose : Word → Bool) (announced : Mark) :
    Takes (NodeReader.flowKey isClose announced (fuel + 1)) := by
  rw [NodeReader.flowKey]
  refine takes_peek.bind fun t => ?_
  split
  · exact takes_pure _
  · exact takes_pure _
  · split
    · exact takes_pure _
    · exact h.node _ _

lemma AllTake.succ_flowValue (h : AllTake fuel) (isClose : Word → Bool) :
    Takes (NodeReader.flowValue isClose (fuel + 1)) := by
  rw [NodeReader.flowValue]
  refine takes_peek.bind fun t => ?_
  split
  · refine takes_skip.bind fun _ => takes_peek.bind fun u => ?_
    split
    · exact takes_pure _
    · split
      · exact takes_pure _
      · exact h.node _ _
  · exact takes_pure _

/-- Items between brackets are taken with one more level of fuel. -/
lemma AllTake.succ_flowItems (h : AllTake fuel) (since : Mark) (isFirst : Bool) :
    Takes (NodeReader.flowItems since isFirst (fuel + 1)) := by
  rw [NodeReader.flowItems]
  refine takes_peek.bind fun t => ?_
  split
  · exact takes_skip.bind fun _ => takes_pure _
  · extract_lets isClose rest
    have hrest (u : PUnit) : Takes (rest u) := by
      refine takes_peek.bind fun t => ?_
      split
      · exact takes_skip.bind fun _ => (h.flowKey _ _).bind fun _ => (h.flowValue _).bind fun _ =>
          (h.flowItems _ _).bind fun _ => takes_pure _
      · exact takes_skip.bind fun _ => takes_pure _
      · exact (h.node _ _).bind fun _ => (h.flowItems _ _).bind fun _ => takes_pure _
    split
    · split
      · exact takes_skip.bind hrest
      · exact (takes_refuse _ _ _ _).bind hrest
    · exact (takes_pure ()).bind hrest

/-- Entries between braces are taken with one more level of fuel. -/
lemma AllTake.succ_flowEntries (h : AllTake fuel) (since : Mark) (isFirst : Bool) :
    Takes (NodeReader.flowEntries since isFirst (fuel + 1)) := by
  rw [NodeReader.flowEntries]
  refine takes_peek.bind fun t => ?_
  split
  · exact takes_skip.bind fun _ => takes_pure _
  · extract_lets isClose rest
    have hrest (u : PUnit) : Takes (rest u) := by
      refine takes_peek.bind fun t => ?_
      split
      · exact takes_skip.bind fun _ => (h.flowKey _ _).bind fun _ => (h.flowValue _).bind fun _ =>
          (h.flowEntries _ _).bind fun _ => takes_pure _
      · exact takes_skip.bind fun _ => takes_pure _
      · exact (h.node _ _).bind fun _ => takes_peek.bind fun _ =>
          (h.flowEntries _ _).bind fun _ => takes_pure _
    split
    · split
      · exact takes_skip.bind hrest
      · exact (takes_refuse _ _ _ _).bind hrest
    · exact (takes_pure ()).bind hrest

/-- All readers take their tokens from the front, with any fuel. -/
theorem allTake (fuel : Nat) : AllTake fuel := by
  induction fuel with
  | zero =>
    constructor <;> intros
    · rw [NodeReader.node]; exact takes_pure _
    · rw [NodeReader.blockItems]; exact takes_pure _
    · rw [NodeReader.indentlessItems]; exact takes_pure _
    · rw [NodeReader.blockPart]; exact takes_pure _
    · rw [NodeReader.blockValue]; exact takes_pure _
    · rw [NodeReader.blockEntries]; exact takes_pure _
    · rw [NodeReader.flowKey]; exact takes_pure _
    · rw [NodeReader.flowValue]; exact takes_pure _
    · rw [NodeReader.flowItems]; exact takes_pure _
    · rw [NodeReader.flowEntries]; exact takes_pure _
  | succ fuel ih =>
    exact ⟨ih.succ_node, ih.succ_blockItems, ih.succ_indentlessItems, ih.succ_blockPart,
      ih.succ_blockValue, ih.succ_blockEntries, ih.succ_flowKey, ih.succ_flowValue,
      ih.succ_flowItems, ih.succ_flowEntries⟩

/-! ### Documents -/

lemma takes_directives (version : Bool) (fuel : Nat) : Takes (directives version fuel) := by
  induction fuel generalizing version with
  | zero => exact takes_pure _
  | succ fuel ih =>
    rw [directives]
    refine takes_peek.bind fun t => ?_
    split
    · split
      · exact takes_refuse _ _ _ _
      · split
        · exact takes_refuse _ _ _ _
        · exact takes_skip.bind fun _ => ih true
    · refine takes_get.bind fun s => ?_
      split
      · exact takes_refuse _ _ _ _
      · refine Takes.bind (takes_modify ?_) fun _ => takes_skip.bind fun _ => ih version
        exact fun _ => rfl
    · exact takes_skip.bind fun _ => ih version
    · exact takes_pure _

lemma takes_documentStart (fuel : Nat) : Takes (documentStart fuel) := by
  unfold documentStart
  refine Takes.bind (takes_modify fun _ => rfl) fun _ =>
    (takes_directives _ _).bind fun _ =>
      Takes.bind (takes_modify fun _ => rfl) fun _ => takes_peek.bind fun t => ?_
  split
  · exact takes_skip
  · exact takes_refuse _ _ _ _

lemma takes_documentEnds (fuel : Nat) : Takes (documentEnds fuel) := by
  induction fuel with
  | zero => exact takes_pure _
  | succ fuel ih =>
    rw [documentEnds]
    refine takes_peek.bind fun t => ?_
    split
    · exact takes_skip.bind fun _ => ih
    · exact takes_pure _

lemma takes_documentContent (fuel : Nat) : Takes (documentContent fuel) := by
  unfold documentContent
  refine takes_peek.bind fun t => ?_
  split
  · exact takes_pure _
  · exact takes_pure _
  · exact takes_pure _
  · exact takes_pure _
  · exact (allTake fuel).node _ _

/-- The first document is taken from the front of the tokens. -/
lemma takes_firstDocument (fuel : Nat) : Takes (firstDocument fuel) := by
  unfold firstDocument
  refine takes_peek.bind fun t => ?_
  split
  · exact takes_pure _
  · exact (takes_documentStart _).bind fun _ => (takes_documentContent _).bind fun _ =>
      takes_pure _
  · exact (takes_documentStart _).bind fun _ => (takes_documentContent _).bind fun _ =>
      takes_pure _
  · exact ((allTake fuel).node _ _).bind fun _ => takes_pure _

/-- A single document is taken from the front of the tokens. -/
lemma takes_singleDocument (fuel : Nat) : Takes (singleDocument fuel) := by
  unfold singleDocument
  refine (takes_firstDocument fuel).bind fun o => ?_
  split
  · exact takes_pure _
  · refine (takes_documentEnds fuel).bind fun _ => takes_peek.bind fun t => ?_
    split
    · exact takes_pure _
    · exact (takes_documentStart fuel).bind fun _ => takes_refuseNode _ _ _ _

/-! ### Words that break off -/

/-- The words of a state break off before the end of the stream. -/
structure BreaksOff (s : NodeState) : Prop where
  stop : ∃ e, s.tokens.stop = .error e
  ready : ∀ t ∈ s.tokens.ready, t.word ≠ .streamEnd

lemma BreaksOff.of_takes {x : NodeReader α} {s s' : NodeState} {a : α} (h : BreaksOff s)
    (hx : Takes x) (ha : x s = .ok (a, s')) : BreaksOff s' := by
  obtain ⟨hstop, hready⟩ := hx.advances s a s' ha
  exact ⟨hstop ▸ h.stop, fun t ht => h.ready t (hready ht)⟩

/-- From words that break off, what a reader gives has a property. -/
def Gives (P : α → Prop) (x : NodeReader α) : Prop :=
  ∀ s a s', BreaksOff s → x s = .ok (a, s') → P a

lemma Gives.bind {P : β → Prop} {Q : α → Prop} {x : NodeReader α} {f : α → NodeReader β}
    (hx : Takes x) (hq : Gives Q x) (hf : ∀ a, Q a → Gives P (f a)) : Gives P (x >>= f) := by
  intro s b s' hs h
  obtain ⟨a, u, ha, hb⟩ := bind_inversion h
  exact hf a (hq s a u hs ha) u b s' (hs.of_takes hx ha) hb

lemma Gives.after {P : β → Prop} {x : NodeReader α} {f : α → NodeReader β}
    (hx : Takes x) (hf : ∀ a, Gives P (f a)) : Gives P (x >>= f) :=
  Gives.bind (Q := fun _ => True) hx (fun _ _ _ _ _ => trivial) fun a _ => hf a

lemma gives_pure {P : α → Prop} {a : α} (h : P a) : Gives P (pure a) := by
  rintro s _ _ - ⟨⟩
  exact h

lemma gives_peek : Gives (fun t => t.word ≠ .streamEnd) peek := by
  intro s t s' h ht
  obtain ⟨e, he⟩ := h.stop
  change (s.tokens.peek >>= fun t => Except.ok (t, s)) = _ at ht
  cases hready : s.tokens.ready with
  | nil =>
    rw [Tokens.peek, hready, he] at ht
    cases ht
  | cons u us =>
    rw [Tokens.peek, hready] at ht
    cases ht
    exact h.ready t (hready ▸ List.mem_cons_self)

lemma gives_firstDocument (fuel : Nat) : Gives (· ≠ none) (firstDocument fuel) := by
  unfold firstDocument
  refine Gives.bind takes_peek gives_peek fun t ht => ?_
  split
  · contradiction
  · exact Gives.after (takes_documentStart _) fun _ => Gives.after (takes_documentContent _)
      fun _ => gives_pure (by simp)
  · exact Gives.after (takes_documentStart _) fun _ => Gives.after (takes_documentContent _)
      fun _ => gives_pure (by simp)
  · exact Gives.after ((allTake fuel).node _ _) fun _ => gives_pure (by simp)

/-- No document is complete. -/
lemma gives_singleDocument (fuel : Nat) : Gives (fun _ => False) (singleDocument fuel) := by
  unfold singleDocument
  refine Gives.bind (takes_firstDocument fuel) (gives_firstDocument fuel) fun o ho => ?_
  split
  · contradiction
  · refine Gives.after (takes_documentEnds fuel) fun _ =>
      Gives.bind takes_peek gives_peek fun t ht => ?_
    split
    · contradiction
    · refine Gives.after (takes_documentStart fuel) fun _ => ?_
      rintro s _ _ - ⟨⟩

end NodeReader

/-- Nodes are refused, or the reading of their words fails. -/
theorem failure_of_ofTokens? {ts : Tokens} {f : Failure} (h : Node.ofTokens? ts = .error f) :
    (∃ e, f = .refused e) ∨ ts.stop = .error f := by
  let s : NodeState := ⟨ts, NodeReader.commonHandles, []⟩
  let fuel := 4 * ts.ready.length + 16
  have htakes := NodeReader.takes_singleDocument fuel
  cases hsingle : NodeReader.singleDocument fuel s with
  | ok p => cases (congrArg (Except.map Prod.fst) hsingle).symm.trans h
  | error e =>
    obtain rfl : e = f := Except.error.inj ((congrArg (Except.map Prod.fst) hsingle).symm.trans h)
    exact htakes.fails s e hsingle

/-- A document has no node where the reading of its words fails. -/
theorem ofTokens?_eq_error {ts : List Token} {e : Failure} (h : ∀ t ∈ ts, t.word ≠ .streamEnd) :
    ∃ e', Node.ofTokens? ⟨ts, .error e⟩ = .error e' := by
  let s : NodeState := ⟨⟨ts, .error e⟩, NodeReader.commonHandles, []⟩
  have hs : NodeReader.BreaksOff s := ⟨⟨e, rfl⟩, h⟩
  let fuel := 4 * ts.length + 16
  cases hsingle : NodeReader.singleDocument fuel s with
  | error e' => exact ⟨e', congrArg (Except.map Prod.fst) hsingle⟩
  | ok p => exact (NodeReader.gives_singleDocument fuel s p.1 p.2 hs hsingle).elim

end Schematic.Yaml
