import Schematic.Proofs.Yaml.Flow.Run
import Schematic.Proofs.Yaml.Node

/-!
# Tokens of flow collections

Which tokens are taken for a node in a flow collection. A sequence or a mapping holds its own
closing bracket. An entry whose name is no key is refused at its colon, so that what is taken
depends on the names.
-/

namespace Schematic.Yaml.NodeReader

open TokenReader (IsNameTokens)

variable {p q narrow : Prop} {s : NodeState} {t : Token} {ts us vs : List Token} {n : Node}
  {ns : List Node} {es : List (Node × Node)} {since start stop start' stop' : Mark} {fuel : Nat}
  {name : Text}

/-- A reader gives a result under a condition, and otherwise the document is refused. -/
abbrev YieldsIf {α : Type} (p : Prop) (r : Except Failure α) (a : α) : Prop :=
  GivesIf (fun _ => True) p r a

lemma YieldsIf.of_eq_error {α : Type} {r : Except Failure α} {e : Failure} (h : r = .error e)
    (a : α) : YieldsIf False r a :=
  ⟨False.elim, fun _ => ⟨e, h, trivial⟩⟩

inductive StartsNode : Word → Prop
  | scalar (content : Text) (isPlain : Bool) : StartsNode (.scalar content isPlain)
  | sequence : StartsNode .flowSequenceStart
  | mapping : StartsNode .flowMappingStart

/-- Tokens that are taken for a node under a condition. -/
structure IsFlowNode (p : Prop) (ts : List Token) (n : Node) : Prop where
  starts : ∃ t us, ts = t :: us ∧ StartsNode t.word
  takes :
    ∀ block fuel s, 4 * ts.length ≤ fuel → YieldsIf p (node block false fuel (before s ts)) (n, s)

/-- Tokens that are taken for the items of a sequence up to its end, under a condition. -/
structure IsFlowItems (p : Prop) (ts : List Token) (ns : List Node) : Prop where
  ne_nil : ts ≠ []
  takes : ∀ since fuel s, 4 * ts.length ≤ fuel →
    YieldsIf p (flowItems since true fuel (before s ts)) (ns, s)

/-- Tokens that are taken for the entries of a mapping up to its end, under a condition. -/
structure IsFlowEntries (p : Prop) (ts : List Token) (es : List (Node × Node)) : Prop where
  ne_nil : ts ≠ []
  takes : ∀ since fuel s, 4 * ts.length ≤ fuel →
    YieldsIf p (flowEntries since true fuel (before s ts)) (es, s)

/-! ### Sequences -/

/-- After a comma the items go on as they start. -/
lemma flowItems_comma (hts : ts ≠ []) (start stop : Mark) :
    flowItems since false (fuel + 1) (before s (⟨.flowEntry, start, stop⟩ :: ts))
      = flowItems since true (fuel + 1) (before s ts) := by
  obtain ⟨⟨w, a, b⟩, us, rfl⟩ := List.exists_cons_of_ne_nil hts
  rw [flowItems, flowItems]
  cases w <;> rfl

lemma flowItems_end (isFirst : Bool) :
    flowItems since isFirst (fuel + 1) (before s [⟨.flowSequenceEnd, start, stop⟩])
      = .ok ([], s) := by
  rw [flowItems]
  rfl

/-- An item, and what comes after it. -/
lemma flowItems_node (ht : StartsNode t.word) :
    flowItems since true (fuel + 1) (before s (t :: ts))
      = node false false fuel (before s (t :: ts)) >>= fun x =>
          flowItems since false fuel x.2 >>= fun y => .ok (x.1 :: y.1, y.2) := by
  obtain ⟨w, a, b⟩ := t
  rw [flowItems]
  cases ht <;> rfl

lemma IsFlowNode.isFlowItems (h : IsFlowNode p ts n) :
    IsFlowItems p (ts ++ [⟨.flowSequenceEnd, start, stop⟩]) [n] := by
  obtain ⟨⟨t, ts, rfl, ht⟩, htakes⟩ := h
  refine ⟨List.cons_ne_nil _ _, fun since fuel s hfuel => ?_⟩
  simp only [List.length_append, List.length_cons, List.length_nil] at hfuel htakes
  obtain ⟨fuel, rfl⟩ : ∃ f, fuel = f + 2 := ⟨fuel - 2, by omega⟩
  have hnode := htakes false (fuel + 1) (before s [⟨.flowSequenceEnd, start, stop⟩]) (by omega)
  rw [← before_append] at hnode
  rw [List.cons_append, flowItems_node ht, ← List.cons_append]
  refine hnode.map ?_
  rw [flowItems_end]
  rfl

/-- A node and a comma are taken for one more item. -/
lemma IsFlowItems.cons (h : IsFlowNode p ts n) (hs : IsFlowItems q us ns) :
    IsFlowItems (p ∧ q) (ts ++ ⟨.flowEntry, start, stop⟩ :: us) (n :: ns) := by
  obtain ⟨⟨t, ts, rfl, ht⟩, htakes⟩ := h
  refine ⟨List.cons_ne_nil _ _, fun since fuel s hfuel => ?_⟩
  simp only [List.length_append, List.length_cons] at hfuel htakes
  obtain ⟨fuel, rfl⟩ : ∃ f, fuel = f + 2 := ⟨fuel - 2, by omega⟩
  have hnode := htakes false (fuel + 1) (before s (⟨.flowEntry, start, stop⟩ :: us)) (by omega)
  have hitems := hs.takes since (fuel + 1) s (by omega)
  rw [← before_append] at hnode
  rw [← flowItems_comma hs.ne_nil start stop] at hitems
  rw [List.cons_append, flowItems_node ht, ← List.cons_append]
  exact hnode.bind (hitems.map rfl)

/-- A sequence in brackets. -/
lemma IsFlowItems.isFlowNode (h : IsFlowItems p ts ns) :
    IsFlowNode p (⟨.flowSequenceStart, start, stop⟩ :: ts) (.sequence .sequence ns start) where
  starts := ⟨_, _, rfl, .sequence⟩
  takes block fuel s hfuel := by
    simp only [List.length_cons] at hfuel
    obtain ⟨fuel, rfl⟩ : ∃ f, fuel = f + 1 := ⟨fuel - 1, by omega⟩
    have hitems := h.takes start fuel s (by omega)
    have hnode : node block false (fuel + 1) (before s (⟨.flowSequenceStart, start, stop⟩ :: ts))
        = flowItems start true fuel (before s ts)
          >>= fun x => .ok (.sequence .sequence x.1 start, x.2) := by
      rw [node]
      cases block <;> rfl
    rw [hnode]
    exact hitems.map rfl

/-! ### Mappings -/

/-- After a comma the entries go on as they start. -/
lemma flowEntries_comma (hts : ts ≠ []) (start stop : Mark) :
    flowEntries since false (fuel + 1) (before s (⟨.flowEntry, start, stop⟩ :: ts))
      = flowEntries since true (fuel + 1) (before s ts) := by
  obtain ⟨⟨w, a, b⟩, us, rfl⟩ := List.exists_cons_of_ne_nil hts
  rw [flowEntries, flowEntries]
  cases w <;> rfl

lemma flowEntries_end (isFirst : Bool) :
    flowEntries since isFirst (fuel + 1) (before s [⟨.flowMappingEnd, start, stop⟩])
      = .ok ([], s) := by
  rw [flowEntries]
  rfl

lemma node_text (block : Bool) :
    node block false (fuel + 1) (before s (⟨.scalar name false, start, stop⟩ :: ts))
      = .ok (.scalar .text name start, before s ts) := by
  rw [node]
  rfl

variable {isClose : Word → Bool} {since' : Mark}

/-- The key of an entry. -/
lemma flowKey_text (hclose : isClose (.scalar name false) = false) :
    flowKey isClose since (fuel + 2) (before s (⟨.scalar name false, start, stop⟩ :: ts))
      = .ok (.scalar .text name start, before s ts) := by
  rw [flowKey]
  simp only [bind, StateT.bind, Except.bind, peek_before, hclose, Bool.false_eq_true, if_false,
    node_text]

/-- The value of an entry. -/
lemma flowValue_node (ht : StartsNode t.word) (hclose : isClose t.word = false) :
    flowValue isClose (fuel + 1) (before s (⟨.value, start, stop⟩ :: t :: ts))
      = node false false fuel (before s (t :: ts)) := by
  obtain ⟨w, a, b⟩ := t
  dsimp only at ht hclose
  rw [flowValue]
  cases ht <;>
    simp only [bind, StateT.bind, Except.bind, peek_before, skip_before, hclose, Bool.false_eq_true,
      if_false]

def isMappingEnd : Word → Bool
  | .flowMappingEnd => true
  | _ => false

lemma StartsNode.isMappingEnd {w : Word} (h : StartsNode w) : isMappingEnd w = false := by
  cases h <;> rfl

/-- An entry with a key, and what comes after it. -/
lemma flowEntries_key {key : Mark} (ht : StartsNode t.word) :
    flowEntries since true (fuel + 3)
      (before s (⟨.key, key, key⟩ :: ⟨.scalar name false, start, stop⟩ ::
        ⟨.value, start', stop'⟩ :: t :: ts))
      = node false false (fuel + 1) (before s (t :: ts)) >>= fun x =>
          flowEntries since false (fuel + 2) x.2 >>= fun y =>
            .ok ((.scalar .text name start, x.1) :: y.1, y.2) := by
  have hparts : flowEntries since true (fuel + 3)
        (before s (⟨.key, key, key⟩ :: ⟨.scalar name false, start, stop⟩ ::
          ⟨.value, start', stop'⟩ :: t :: ts))
      = flowKey isMappingEnd key (fuel + 2)
          (before s (⟨.scalar name false, start, stop⟩ :: ⟨.value, start', stop'⟩ :: t :: ts))
        >>= fun k => flowValue isMappingEnd (fuel + 2) k.2
        >>= fun x => flowEntries since false (fuel + 2) x.2
        >>= fun y => .ok ((k.1, x.1) :: y.1, y.2) := by
    rw [flowEntries]
    rfl
  rw [hparts, flowKey_text rfl, ok_bind, flowValue_node ht ht.isMappingEnd]

/-- An entry without a key is refused at its colon. -/
lemma flowEntries_colon (since start stop start' stop' : Mark) (name : Text) (fuel : Nat)
    (s : NodeState) (ts : List Token) :
    ∃ e, flowEntries since true (fuel + 2)
      (before s (⟨.scalar name false, start, stop⟩ :: ⟨.value, start', stop'⟩ :: ts))
      = .error e := by
  have hparts : flowEntries since true (fuel + 2) (before s (⟨.scalar name false, start, stop⟩ ::
        ⟨.value, start', stop'⟩ :: ts))
      = node false false (fuel + 1) (before s (⟨.scalar name false, start, stop⟩ ::
          ⟨.value, start', stop'⟩ :: ts)) >>= fun k =>
            peek k.2 >>= fun t =>
              flowEntries since false (fuel + 1) t.2 >>= fun y =>
                .ok ((k.1, emptyScalar t.1.start) :: y.1, y.2) := by
    rw [flowEntries]
    rfl
  have hcolon : ∃ e, flowEntries since false (fuel + 1) (before s (⟨.value, start', stop'⟩ :: ts))
      = .error e :=
    ⟨_, by rw [flowEntries]; rfl⟩
  obtain ⟨e, he⟩ := hcolon
  exact ⟨e, by rw [hparts, node_text, ok_bind, peek_before, ok_bind, he]; rfl⟩

/-- An entry in front of others, whose name has to be a key. -/
lemma IsFlowNode.takes_entry (hname : IsNameTokens narrow name us) (h : IsFlowNode p ts n) :
    ∃ place, ∀ q es since fuel s s', 4 * ts.length ≤ fuel + 1 →
      YieldsIf q (flowEntries since false (fuel + 2) s) (es, s') →
        YieldsIf (narrow ∧ p ∧ q) (flowEntries since true (fuel + 3) (before s (us ++ ts)))
          ((.scalar .text name place, n) :: es, s') := by
  obtain ⟨key, start, stop, start', stop', hkey, hlone⟩ := hname
  obtain ⟨⟨t, ts, rfl, ht⟩, htakes⟩ := h
  refine ⟨start, fun q es since fuel s s' hfuel hrest => ?_⟩
  by_cases hn : narrow
  · have hnode := htakes false (fuel + 1) s hfuel
    have hentries : YieldsIf q (flowEntries since false (fuel + 2) s >>= fun y =>
        .ok ((.scalar .text name start, n) :: y.1, y.2)) ((.scalar .text name start, n)
          :: es, s') := hrest.map rfl
    rw [hkey hn, List.cons_append, List.cons_append, List.cons_append, List.nil_append,
      flowEntries_key ht]
    exact (hnode.bind hentries).congr (by simp [hn])
  · obtain ⟨e, he⟩ := flowEntries_colon since start stop start' stop' name (fuel + 1) s (t :: ts)
    rw [hlone hn, List.cons_append, List.cons_append, List.nil_append]
    exact (YieldsIf.of_eq_error he _).congr (by simp [hn])

lemma IsNameTokens.two_le_length (h : IsNameTokens narrow name us) : 2 ≤ us.length := by
  obtain ⟨key, start, stop, start', stop', hkey, hlone⟩ := h
  by_cases hn : narrow
  · simp [hkey hn]
  · simp [hlone hn]

/-- The last entry of a mapping. -/
lemma IsFlowNode.isFlowEntries (hname : IsNameTokens narrow name us) (h : IsFlowNode p ts n) :
    ∃ place, IsFlowEntries (narrow ∧ p) (us ++ (ts ++ [⟨.flowMappingEnd, start, stop⟩]))
      [(.scalar .text name place, n)] := by
  obtain ⟨place, hentry⟩ := h.takes_entry hname
  have htwo := IsNameTokens.two_le_length hname
  refine ⟨place, by simp, fun since fuel s hfuel => ?_⟩
  simp only [List.length_append, List.length_cons, List.length_nil] at hfuel
  obtain ⟨fuel, rfl⟩ : ∃ f, fuel = f + 3 := ⟨fuel - 3, by omega⟩
  have hend : YieldsIf True
      (flowEntries since false (fuel + 2) (before s [⟨.flowMappingEnd, start, stop⟩])) ([], s) :=
    .of_eq_ok (flowEntries_end false)
  have hentry := hentry True [] since fuel _ s (by omega) hend
  rw [← before_append, List.append_assoc] at hentry
  exact hentry.congr (by rw [and_true])

/-- A name and a node are taken for one more entry. -/
lemma IsFlowEntries.cons (hname : IsNameTokens narrow name us) (h : IsFlowNode p ts n)
    (hs : IsFlowEntries q vs es) :
    ∃ place, IsFlowEntries (narrow ∧ p ∧ q) (us ++ (ts ++ ⟨.flowEntry, start, stop⟩ :: vs))
      ((.scalar .text name place, n) :: es) := by
  obtain ⟨place, hentry⟩ := h.takes_entry hname
  have htwo := IsNameTokens.two_le_length hname
  refine ⟨place, by simp, fun since fuel s hfuel => ?_⟩
  simp only [List.length_append, List.length_cons] at hfuel
  obtain ⟨fuel, rfl⟩ : ∃ f, fuel = f + 3 := ⟨fuel - 3, by omega⟩
  have hrest := hs.takes since (fuel + 2) s (by omega)
  rw [← flowEntries_comma hs.ne_nil start stop] at hrest
  have hentry := hentry q es since fuel _ s (by omega) hrest
  rwa [← before_append, List.append_assoc] at hentry

/-- A mapping in braces. -/
lemma IsFlowEntries.isFlowNode (h : IsFlowEntries p ts es) :
    IsFlowNode p (⟨.flowMappingStart, start, stop⟩ :: ts) (.mapping .mapping es start) where
  starts := ⟨_, _, rfl, .mapping⟩
  takes block fuel s hfuel := by
    simp only [List.length_cons] at hfuel
    obtain ⟨fuel, rfl⟩ : ∃ f, fuel = f + 1 := ⟨fuel - 1, by omega⟩
    have hentries := h.takes start fuel s (by omega)
    have hnode : node block false (fuel + 1) (before s (⟨.flowMappingStart, start, stop⟩ :: ts))
        = flowEntries start true fuel (before s ts)
          >>= fun x => .ok (.mapping .mapping x.1 start, x.2) := by
      rw [node]
      cases block <;> rfl
    rw [hnode]
    exact hentries.map rfl

/-! ### Scalars and empty collections -/

lemma isFlowNode_scalar (content : Text) (isPlain : Bool) :
    IsFlowNode True [⟨.scalar content isPlain, start, stop⟩]
      (.scalar (plainTag isPlain content) content start) where
  starts := ⟨_, _, rfl, .scalar content isPlain⟩
  takes block fuel s hfuel := by
    obtain ⟨fuel, rfl⟩ := exists_succ (Nat.lt_of_lt_of_le (Nat.succ_pos 3) hfuel)
    refine .of_eq_ok ?_
    rw [node]
    rfl

lemma isFlowItems_nil : IsFlowItems True [⟨.flowSequenceEnd, start, stop⟩] [] where
  ne_nil := List.cons_ne_nil _ _
  takes since fuel s hfuel := by
    obtain ⟨fuel, rfl⟩ := exists_succ (Nat.lt_of_lt_of_le (Nat.succ_pos 3) hfuel)
    exact .of_eq_ok (flowItems_end true)

lemma isFlowEntries_nil : IsFlowEntries True [⟨.flowMappingEnd, start, stop⟩] [] where
  ne_nil := List.cons_ne_nil _ _
  takes since fuel s hfuel := by
    obtain ⟨fuel, rfl⟩ := exists_succ (Nat.lt_of_lt_of_le (Nat.succ_pos 3) hfuel)
    exact .of_eq_ok (flowEntries_end true)

/-! ### Values -/

variable {v : Value} {ws : List Value} {fs : List (Value × Value)}

/-- Tokens that are taken for a node with a value, under a condition. -/
def SaysIf (p : Prop) (ts : List Token) (v : Value) : Prop :=
  ∃ n, IsFlowNode p ts n ∧ n.build = .ok v

/-- Tokens that are taken for items with values up to the end of a sequence, under a condition. -/
def SaysItemsIf (p : Prop) (ts : List Token) (vs : List Value) : Prop :=
  ∃ ns, IsFlowItems p ts ns ∧ buildItems ns = vs.map .ok

/-- Tokens that are taken for entries with keys and values up to the end of a mapping, under a
condition. -/
def SaysEntriesIf (p : Prop) (ts : List Token) (es : List (Value × Value)) : Prop :=
  ∃ ns, IsFlowEntries p ts ns ∧ ∀ outer start,
    buildEntries outer start ns = .ok ⟨[], es.map fun e => ⟨.ok e.1, .ok e.2⟩⟩

lemma saysIf_scalar {isPlain : Bool} (h : scalarValue (plainTag isPlain name) name start = .ok v) :
    SaysIf True [⟨.scalar name isPlain, start, stop⟩] v :=
  ⟨_, isFlowNode_scalar name isPlain, h⟩

lemma saysItemsIf_nil : SaysItemsIf True [⟨.flowSequenceEnd, start, stop⟩] [] :=
  ⟨[], isFlowItems_nil, rfl⟩

lemma SaysIf.saysItemsIf (h : SaysIf p ts v) :
    SaysItemsIf p (ts ++ [⟨.flowSequenceEnd, start, stop⟩]) [v] := by
  obtain ⟨n, hn, hv⟩ := h
  exact ⟨[n], hn.isFlowItems, by rw [buildItems, hv]; rfl⟩

lemma SaysItemsIf.cons (h : SaysIf p ts v) (hs : SaysItemsIf q us ws) :
    SaysItemsIf (p ∧ q) (ts ++ ⟨.flowEntry, start, stop⟩ :: us) (v :: ws) := by
  obtain ⟨n, hn, hv⟩ := h
  obtain ⟨ns, hns, hvs⟩ := hs
  exact ⟨n :: ns, IsFlowItems.cons hn hns, by rw [buildItems, hv, hvs, List.map_cons]⟩

lemma SaysItemsIf.saysIf (h : SaysItemsIf p ts ws) :
    SaysIf p (⟨.flowSequenceStart, start, stop⟩ :: ts) (.list ws) := by
  obtain ⟨ns, hns, hvs⟩ := h
  exact ⟨_, hns.isFlowNode, build_sequence hvs⟩

lemma saysEntriesIf_nil : SaysEntriesIf True [⟨.flowMappingEnd, start, stop⟩] [] :=
  ⟨[], isFlowEntries_nil, fun _ _ => rfl⟩

lemma SaysIf.saysEntriesIf (hname : IsNameTokens narrow name us) (h : SaysIf p ts v) :
    SaysEntriesIf (narrow ∧ p) (us ++ (ts ++ [⟨.flowMappingEnd, start, stop⟩]))
      [(.text name, v)] := by
  obtain ⟨n, hn, hv⟩ := h
  obtain ⟨place, hes⟩ := hn.isFlowEntries hname
  refine ⟨_, hes, fun outer inner => ?_⟩
  have hnil : buildEntries outer inner []
      = .ok ⟨[], ([] : List (Value × Value)).map fun e => ⟨.ok e.1, .ok e.2⟩⟩ := rfl
  exact buildEntries_text hv hnil

lemma SaysEntriesIf.cons (hname : IsNameTokens narrow name us) (h : SaysIf p ts v)
    (hs : SaysEntriesIf q vs fs) :
    SaysEntriesIf (narrow ∧ p ∧ q) (us ++ (ts ++ ⟨.flowEntry, start, stop⟩ :: vs))
      ((.text name, v) :: fs) := by
  obtain ⟨n, hn, hv⟩ := h
  obtain ⟨ns, hns, hfs⟩ := hs
  obtain ⟨place, hes⟩ := IsFlowEntries.cons hname hn hns
  exact ⟨_, hes, fun outer inner => buildEntries_text hv (hfs outer inner)⟩

lemma SaysEntriesIf.saysIf (h : SaysEntriesIf p ts fs) :
    SaysIf p (⟨.flowMappingStart, start, stop⟩ :: ts) (.ofEntries fs) := by
  obtain ⟨ns, hns, hfs⟩ := h
  exact ⟨_, hns.isFlowNode, build_mapping (hfs start start)⟩

/-! ### Documents -/

/-- The tokens of a mapping in braces, and nothing else. -/
lemma ofTokens?_flowMapping {m : Mark}
    (h : IsFlowNode p (⟨.flowMappingStart, start, stop⟩ :: ts) n) :
    YieldsIf p (Node.ofTokens? ⟨⟨.flowMappingStart, start, stop⟩ :: ts, .ok m⟩) (some n) := by
  have hnode := h.takes true _ (ended m) (Nat.le_add_right _ 16)
  refine ⟨fun hp => ofTokens?_eq_ok (.inr rfl) (hnode.1 hp), fun hp => ?_⟩
  obtain ⟨e, he, -⟩ := hnode.2 hp
  exact ⟨e, ofTokens?_eq_error_of_node (.inr rfl) he, trivial⟩

end Schematic.Yaml.NodeReader
