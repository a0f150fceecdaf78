import Mathlib.Tactic.Lemma
import Schematic.Proofs.Fault
import Schematic.Yaml.Reader

/-!
# Tokens of plain data

Which tokens are taken for a node, for the items of a sequence and for the entries of a mapping,
when nothing of what they say has an anchor or a tag. The tokens stand in front of others, and the
reader stops right after them.
-/

namespace Schematic.Yaml

namespace NodeReader

/-- A state with tokens in front of its own. -/
def before (s : NodeState) (ts : List Token) : NodeState :=
  { s with tokens := { s.tokens with ready := ts ++ s.tokens.ready } }

variable {s s' : NodeState} {t : Token} {ts us vs : List Token} {n : Node} {fuel : Nat}

lemma before_append : before s (ts ++ us) = before (before s us) ts := by
  simp [before]

@[simp] lemma before_nil : before s [] = s := rfl

lemma peek_eq (h : s.tokens.ready = t :: ts) : peek s = .ok (t, s) := by
  change (s.tokens.peek >>= fun t => Except.ok (t, s)) = _
  rw [Tokens.peek, h]
  rfl

@[simp] lemma peek_before : peek (before s (t :: ts)) = .ok (t, before s (t :: ts)) := rfl

@[simp] lemma skip_before : skip (before s (t :: ts)) = .ok ((), before s ts) := rfl

/-- Tokens that are taken for a node, wherever a block may start. -/
structure IsNode (ts : List Token) (n : Node) : Prop where
  starts : ∃ t us, ts = t :: us ∧
    t.word ≠ .key ∧ t.word ≠ .value ∧ t.word ≠ .blockEnd ∧ t.word ≠ .blockEntry
  node_eq : ∀ indentless fuel s, 4 * ts.length ≤ fuel →
    node true indentless fuel (before s ts) = .ok (n, s)

/-- Tokens that are taken for the key or the value of a mapping; no further item of a sequence may
come after them. -/
structure IsPart (ts : List Token) (n : Node) : Prop where
  starts : ∃ t us, ts = t :: us ∧ t.word ≠ .key ∧ t.word ≠ .value ∧ t.word ≠ .blockEnd
  node_eq : ∀ fuel s t us, s.tokens.ready = t :: us → t.word ≠ .blockEntry →
    4 * ts.length ≤ fuel → node true true fuel (before s ts) = .ok (n, s)

/-- Tokens that are taken for the items of a sequence. -/
structure IsItems (ts : List Token) (ns : List Node) : Prop where
  blockItems_eq : ∀ since fuel s e, e.word = .blockEnd → 4 * ts.length ≤ fuel + 1 → 0 < fuel →
    blockItems since fuel (before s (ts ++ [e])) = .ok (ns, s)
  indentlessItems_eq : ∀ fuel s t us, s.tokens.ready = t :: us → t.word ≠ .blockEntry →
    4 * ts.length ≤ fuel + 1 → 0 < fuel → indentlessItems fuel (before s ts) = .ok (ns, s)

/-- Tokens that are taken for the entries of a mapping. -/
structure IsEntries (ts : List Token) (es : List (Node × Node)) : Prop where
  starts : ∀ t us, ts = t :: us → t.word = .key
  blockEntries_eq : ∀ since fuel s e, e.word = .blockEnd → 4 * ts.length < fuel →
    blockEntries since fuel (before s (ts ++ [e])) = .ok (es, s)

lemma IsNode.isPart (h : IsNode ts n) : IsPart ts n where
  starts := by
    obtain ⟨t, us, hts, hkey, hvalue, hend, -⟩ := h.starts
    exact ⟨t, us, hts, hkey, hvalue, hend⟩
  node_eq fuel s _ _ _ _ hfuel := h.node_eq true fuel s hfuel

/-! ### Scalars and empty collections -/

/-- The tag of a scalar without a tag of its own. -/
abbrev plainTag (isPlain : Bool) (content : Text) : Tag :=
  if isPlain then .ofPlain content else .text

variable {start stop start' stop' : Mark}

lemma exists_succ (h : 0 < fuel) : ∃ f, fuel = f + 1 := ⟨fuel - 1, by omega⟩

/-- A scalar is taken for a node with the tag of its content. -/
lemma isNode_scalar (content : Text) (isPlain : Bool) :
    IsNode [⟨.scalar content isPlain, start, stop⟩]
      (.scalar (plainTag isPlain content) content start) where
  starts := ⟨_, _, rfl, by simp⟩
  node_eq indentless fuel s hfuel := by
    obtain ⟨fuel, rfl⟩ := exists_succ (Nat.lt_of_lt_of_le (Nat.succ_pos 3) hfuel)
    rw [node]
    rfl

/-- Two brackets are taken for a sequence without items. -/
lemma isNode_emptySequence :
    IsNode [⟨.flowSequenceStart, start, stop⟩, ⟨.flowSequenceEnd, start', stop'⟩]
      (.sequence .sequence [] start) where
  starts := ⟨_, _, rfl, by simp⟩
  node_eq indentless fuel s hfuel := by
    obtain ⟨fuel, rfl⟩ : ∃ f, fuel = f + 2 := ⟨fuel - 2, by simp at hfuel; omega⟩
    rw [node]
    rfl

/-- Two braces are taken for a mapping without entries. -/
lemma isNode_emptyMapping :
    IsNode [⟨.flowMappingStart, start, stop⟩, ⟨.flowMappingEnd, start', stop'⟩]
      (.mapping .mapping [] start) where
  starts := ⟨_, _, rfl, by simp⟩
  node_eq indentless fuel s hfuel := by
    obtain ⟨fuel, rfl⟩ : ∃ f, fuel = f + 2 := ⟨fuel - 2, by simp at hfuel; omega⟩
    rw [node]
    rfl

/-! ### Sequences -/

variable {ns : List Node} {es : List (Node × Node)}

/-- No tokens are taken for no items. -/
lemma isItems_nil : IsItems [] [] where
  blockItems_eq since fuel s e he hfuel hpos := by
    obtain ⟨fuel, rfl⟩ := exists_succ hpos
    obtain ⟨_, a, b⟩ := e
    subst he
    rw [blockItems]
    rfl
  indentlessItems_eq fuel s t us hready ht hfuel hpos := by
    obtain ⟨fuel, rfl⟩ := exists_succ hpos
    rw [before_nil, indentlessItems]
    simp only [bind, StateT.bind, Except.bind, peek_eq hready]
    rfl

/-- A dash and a node are taken for one more item. -/
lemma IsItems.cons (h : IsNode ts n) (hs : IsItems us ns) :
    IsItems (⟨.blockEntry, start, stop⟩ :: (ts ++ us)) (n :: ns) := by
  obtain ⟨⟨t, ts, rfl, hkey, hvalue, hend, hentry⟩, hnode⟩ := h
  refine ⟨fun since fuel s e he hfuel hpos => ?_, fun fuel s u vs hready hu hfuel hpos => ?_⟩
  · simp only [List.length_cons, List.length_append] at hfuel hnode
    obtain ⟨fuel, rfl⟩ := exists_succ hpos
    have hn := hnode false fuel (before s (us ++ [e])) (by omega)
    have hns := hs.blockItems_eq since fuel s e he (by omega) (by omega)
    rw [← before_append, List.cons_append] at hn
    rw [blockItems]
    simp only [bind, StateT.bind, Except.bind, List.cons_append, List.append_assoc, peek_before,
      skip_before, hn, hns]
    rfl
  · simp only [List.length_cons, List.length_append] at hfuel hnode
    obtain ⟨fuel, rfl⟩ := exists_succ hpos
    have hn := hnode false fuel (before s us) (by omega)
    have hns := hs.indentlessItems_eq fuel s u vs hready hu (by omega) (by omega)
    rw [← before_append, List.cons_append] at hn
    rw [indentlessItems]
    simp only [bind, StateT.bind, Except.bind, List.cons_append, peek_before, skip_before, hn, hns]
    rfl

/-- A sequence that is indented further than what is around it. -/
lemma IsItems.isNode (h : IsItems ts ns) :
    IsNode (⟨.blockSequenceStart, start, stop⟩ :: (ts ++ [⟨.blockEnd, start', stop'⟩]))
      (.sequence .sequence ns start) where
  starts := ⟨_, _, rfl, by simp⟩
  node_eq indentless fuel s hfuel := by
    simp only [List.length_cons, List.length_append, List.length_nil] at hfuel
    obtain ⟨fuel, rfl⟩ := exists_succ (Nat.lt_of_lt_of_le (Nat.succ_pos 7) (by omega : 8 ≤ fuel))
    have hns := h.blockItems_eq start fuel s ⟨.blockEnd, start', stop'⟩ rfl (by omega) (by omega)
    have hnode : node true indentless (fuel + 1)
        (before s (⟨.blockSequenceStart, start, stop⟩ :: (ts ++ [⟨.blockEnd, start', stop'⟩])))
          = (blockItems start fuel >>= fun ns => closeAnchor none (.sequence .sequence ns start))
              (before s (ts ++ [⟨.blockEnd, start', stop'⟩])) := by
      rw [node]
      cases indentless <;> rfl
    rw [hnode]
    simp only [bind, StateT.bind, Except.bind, hns]
    rfl

/-- A sequence that is indented no further than the mapping around it. -/
lemma IsItems.isPart (h : IsItems (⟨.blockEntry, start, stop⟩ :: ts) ns) :
    IsPart (⟨.blockEntry, start, stop⟩ :: ts) (.sequence .sequence ns start) where
  starts := ⟨_, _, rfl, by simp⟩
  node_eq fuel s t us hready ht hfuel := by
    simp only [List.length_cons] at hfuel
    obtain ⟨fuel, rfl⟩ := exists_succ (Nat.lt_of_lt_of_le (Nat.succ_pos 3) (by omega : 4 ≤ fuel))
    have hns := h.indentlessItems_eq fuel s t us hready ht (by rw [List.length_cons]; omega)
      (by omega)
    have hnode : node true true (fuel + 1) (before s (⟨.blockEntry, start, stop⟩ :: ts))
        = (indentlessItems fuel >>= fun ns => closeAnchor none (.sequence .sequence ns start))
            (before s (⟨.blockEntry, start, stop⟩ :: ts)) := by
      rw [node]
      rfl
    rw [hnode]
    simp only [bind, StateT.bind, Except.bind, hns]
    rfl

/-! ### Mappings -/

/-- No tokens are taken for no entries. -/
lemma isEntries_nil : IsEntries [] [] where
  starts := by simp
  blockEntries_eq since fuel s e he hfuel := by
    obtain ⟨fuel, rfl⟩ := exists_succ (Nat.lt_of_le_of_lt (Nat.zero_le _) hfuel)
    obtain ⟨_, a, b⟩ := e
    subst he
    rw [blockEntries]
    rfl

variable {key : Node} {start'' stop'' : Mark}

/-- A node stands for a part of a block. -/
lemma IsNode.blockPart_eq (h : IsNode ts n) (announced : Mark) (s : NodeState)
    (hfuel : 4 * ts.length < fuel) : blockPart announced fuel (before s ts) = .ok (n, s) := by
  obtain ⟨⟨t, ts, rfl, hkey, hvalue, hend, hentry⟩, hnode⟩ := h
  obtain ⟨fuel, rfl⟩ := exists_succ (Nat.lt_of_le_of_lt (Nat.zero_le _) hfuel)
  have hn := hnode true fuel s (by omega)
  rw [blockPart]
  simp only [bind, StateT.bind, Except.bind, peek_before, hn]

/-- A part of a block is taken for its node. -/
lemma IsPart.blockPart_eq (h : IsPart ts n) (announced : Mark) (s : NodeState)
    (hready : s.tokens.ready = t :: us) (ht : t.word ≠ .blockEntry) (hfuel : 4 * ts.length < fuel) :
    blockPart announced fuel (before s ts) = .ok (n, s) := by
  obtain ⟨⟨u, ts, rfl, hkey, hvalue, hend⟩, hnode⟩ := h
  obtain ⟨fuel, rfl⟩ := exists_succ (Nat.lt_of_le_of_lt (Nat.zero_le _) hfuel)
  have hn := hnode fuel s t us hready ht (by omega)
  rw [blockPart]
  simp only [bind, StateT.bind, Except.bind, peek_before, hn]

/-- A key and a part are taken for one more entry. -/
lemma IsEntries.cons (hkey : IsNode ts key) (hvalue : IsPart us n) (h : IsEntries vs es) :
    IsEntries (⟨.key, start, stop⟩ :: (ts ++ (⟨.value, start', stop'⟩ :: (us ++ vs))))
      ((key, n) :: es) where
  starts := by simp
  blockEntries_eq since fuel s e he hfuel := by
    simp only [List.length_cons, List.length_append] at hfuel
    obtain ⟨fuel, rfl⟩ : ∃ f, fuel = f + 2 := ⟨fuel - 2, by omega⟩
    have hready : ∃ t ts', (before s (vs ++ [e])).tokens.ready = t :: ts' ∧
        t.word ≠ .blockEntry := by
      cases vs with
      | nil => exact ⟨e, s.tokens.ready, rfl, by simp [he]⟩
      | cons t vs => exact ⟨t, vs ++ [e] ++ s.tokens.ready, rfl, by simp [h.starts t vs rfl]⟩
    obtain ⟨t, ts', hready, ht⟩ := hready
    have hkeyFuel : 4 * ts.length < fuel + 1 := by omega
    have hvalueFuel : 4 * us.length < fuel := by omega
    have hk := hkey.blockPart_eq stop (before s (⟨.value, start', stop'⟩ :: (us ++ (vs ++ [e]))))
      hkeyFuel
    have hv := hvalue.blockPart_eq stop' (before s (vs ++ [e])) hready ht hvalueFuel
    have hes := h.blockEntries_eq since (fuel + 1) s e he (by omega)
    rw [← before_append] at hk hv
    rw [blockEntries]
    simp only [bind, StateT.bind, Except.bind, List.cons_append, List.append_assoc, peek_before,
      skip_before, hk, blockValue, hv, hes]
    rfl

/-- A mapping that is indented further than what is around it. -/
lemma IsEntries.isNode (h : IsEntries ts es) :
    IsNode (⟨.blockMappingStart, start, stop⟩ :: (ts ++ [⟨.blockEnd, start', stop'⟩]))
      (.mapping .mapping es start) where
  starts := ⟨_, _, rfl, by simp⟩
  node_eq indentless fuel s hfuel := by
    simp only [List.length_cons, List.length_append, List.length_nil] at hfuel
    obtain ⟨fuel, rfl⟩ := exists_succ (Nat.lt_of_lt_of_le (Nat.succ_pos 7) (by omega : 8 ≤ fuel))
    have hes := h.blockEntries_eq start fuel s ⟨.blockEnd, start', stop'⟩ rfl (by omega)
    have hnode : node true indentless (fuel + 1)
        (before s (⟨.blockMappingStart, start, stop⟩ :: (ts ++ [⟨.blockEnd, start', stop'⟩])))
          = (blockEntries start fuel >>= fun es => closeAnchor none (.mapping .mapping es start))
              (before s (ts ++ [⟨.blockEnd, start', stop'⟩])) := by
      rw [node]
      cases indentless <;> rfl
    rw [hnode]
    simp only [bind, StateT.bind, Except.bind, hes]
    rfl

/-! ### Values -/

/-- Tokens that are taken for a node with a value. -/
def Says (ts : List Token) (v : Value) : Prop := ∃ n, IsNode ts n ∧ n.build = .ok v

/-- Tokens that are taken for a node with a value, as a part of a mapping. -/
def SaysPart (ts : List Token) (v : Value) : Prop := ∃ n, IsPart ts n ∧ n.build = .ok v

/-- Tokens that are taken for items with values. -/
def SaysItems (ts : List Token) (vs : List Value) : Prop :=
  ∃ ns, IsItems ts ns ∧ buildItems ns = vs.map .ok

/-- Tokens that are taken for entries with keys and values. -/
def SaysEntries (ts : List Token) (es : List (Value × Value)) : Prop :=
  ∃ ns, IsEntries ts ns ∧ ∀ outer start,
    buildEntries outer start ns = .ok ⟨[], es.map fun e => ⟨.ok e.1, .ok e.2⟩⟩

variable {v : Value} {ws : List Value} {fs : List (Value × Value)} {name : Text} {isPlain : Bool}

lemma Says.saysPart (h : Says ts v) : SaysPart ts v := by
  obtain ⟨n, hn, hv⟩ := h
  exact ⟨n, hn.isPart, hv⟩

/-- A plain scalar stands for what its spelling says. -/
lemma says_scalar (h : scalarValue (plainTag isPlain name) name start = .ok v) :
    Says [⟨.scalar name isPlain, start, stop⟩] v :=
  ⟨_, isNode_scalar name isPlain, h⟩

lemma plainTag_text (h : isPlain = true → Tag.ofPlain name = .text) :
    plainTag isPlain name = .text := by
  cases isPlain with
  | false => rfl
  | true => exact h rfl

lemma says_text (h : isPlain = true → Tag.ofPlain name = .text) :
    Says [⟨.scalar name isPlain, start, stop⟩] (.text name) := by
  refine says_scalar ?_
  rw [plainTag_text h]
  rfl

lemma says_emptySequence :
    Says [⟨.flowSequenceStart, start, stop⟩, ⟨.flowSequenceEnd, start', stop'⟩] (.list []) :=
  ⟨_, isNode_emptySequence, rfl⟩

lemma says_emptyMapping :
    Says [⟨.flowMappingStart, start, stop⟩, ⟨.flowMappingEnd, start', stop'⟩] (.map []) :=
  ⟨_, isNode_emptyMapping, rfl⟩

lemma saysItems_nil : SaysItems [] [] := ⟨[], isItems_nil, rfl⟩

lemma SaysItems.cons (h : Says ts v) (hs : SaysItems us ws) :
    SaysItems (⟨.blockEntry, start, stop⟩ :: (ts ++ us)) (v :: ws) := by
  obtain ⟨n, hn, hv⟩ := h
  obtain ⟨ns, hns, hvs⟩ := hs
  exact ⟨n :: ns, IsItems.cons hn hns, by rw [buildItems, hv, hvs, List.map_cons]⟩

lemma all_ok (vs : List α) : Built.all (vs.map .ok) = .ok vs := by
  induction vs with
  | nil => rfl
  | cons v vs ih => rw [List.map_cons, Built.all, ih]; rfl

lemma build_sequence (h : buildItems ns = ws.map .ok) :
    (Node.sequence .sequence ns start).build = .ok (.list ws) := by
  rw [Node.build, h, all_ok]
  rfl

lemma SaysItems.saysSequence (h : SaysItems ts ws) :
    Says (⟨.blockSequenceStart, start, stop⟩ :: (ts ++ [⟨.blockEnd, start', stop'⟩]))
      (.list ws) := by
  obtain ⟨ns, hns, hvs⟩ := h
  exact ⟨_, hns.isNode, build_sequence hvs⟩

lemma SaysItems.saysPart (h : SaysItems (⟨.blockEntry, start, stop⟩ :: ts) ws) :
    SaysPart (⟨.blockEntry, start, stop⟩ :: ts) (.list ws) := by
  obtain ⟨ns, hns, hvs⟩ := h
  exact ⟨_, hns.isPart, build_sequence hvs⟩

/-- Tokens that are taken for an item of a sequence in front of others. -/
structure SaysItem (ts : List Token) (v : Value) : Prop where
  starts : ∃ start stop us, ts = ⟨.blockEntry, start, stop⟩ :: us
  append : ∀ us vs, SaysItems us vs → SaysItems (ts ++ us) (v :: vs)

lemma Says.saysItem (h : Says ts v) (start stop : Mark) :
    SaysItem (⟨.blockEntry, start, stop⟩ :: ts) v :=
  ⟨⟨start, stop, ts, rfl⟩, fun _ _ hs => SaysItems.cons h hs⟩

lemma saysEntries_nil : SaysEntries [] [] := ⟨[], isEntries_nil, fun _ _ => rfl⟩

/-- The values of entries of which the first one has a text as its key. -/
lemma buildEntries_text {outer inner : Mark} (hv : n.build = .ok v)
    (hes : buildEntries outer inner es = .ok ⟨[], fs.map fun e => ⟨.ok e.1, .ok e.2⟩⟩) :
    buildEntries outer inner ((.scalar .text name start, n) :: es)
      = .ok ⟨[], ((.text name, v) :: fs).map fun e => ⟨.ok e.1, .ok e.2⟩⟩ := by
  rw [buildEntries, if_neg (by simp [Node.tag]), hes, hv]
  rfl

/-- Entries with values are built to a map. -/
lemma build_mapping
    (h : buildEntries start start es = .ok ⟨[], fs.map fun e => ⟨.ok e.1, .ok e.2⟩⟩) :
    (Node.mapping .mapping es start).build = .ok (.ofEntries fs) := by
  have hboth : (fs.map fun e => (⟨.ok e.1, .ok e.2⟩ : BuiltEntry)).map
      (fun e => Built.both e.key e.value) = fs.map .ok := by
    rw [List.map_map]
    rfl
  rw [Node.build, h]
  simp only [mapOf, Entries.toList, List.nil_append, hboth, all_ok]
  rfl

/-- An entry whose key is a text. -/
lemma SaysEntries.cons {start'' stop'' : Mark} (hname : isPlain = true → Tag.ofPlain name = .text)
    (h : SaysPart us v) (hs : SaysEntries vs fs) :
    SaysEntries (⟨.key, start, stop⟩ :: ⟨.scalar name isPlain, start', stop'⟩ ::
      ⟨.value, start'', stop''⟩ :: (us ++ vs)) ((.text name, v) :: fs) := by
  obtain ⟨n, hn, hv⟩ := h
  obtain ⟨ns, hns, hfs⟩ := hs
  have hkey : IsNode [⟨.scalar name isPlain, start', stop'⟩] (.scalar .text name start') := by
    rw [← plainTag_text hname]
    exact isNode_scalar name isPlain
  exact ⟨_, IsEntries.cons hkey hn hns, fun outer start => buildEntries_text hv (hfs outer start)⟩

/-- Tokens that are taken for an entry of a mapping in front of others. -/
def SaysEntry (ts : List Token) (e : Value × Value) : Prop :=
  ∀ us es, SaysEntries us es → SaysEntries (ts ++ us) (e :: es)

lemma SaysPart.saysEntry {start'' stop'' : Mark} (h : SaysPart us v)
    (hname : isPlain = true → Tag.ofPlain name = .text) :
    SaysEntry (⟨.key, start, stop⟩ :: ⟨.scalar name isPlain, start', stop'⟩ ::
      ⟨.value, start'', stop''⟩ :: us) (.text name, v) :=
  fun _ _ hs => SaysEntries.cons hname h hs

lemma SaysEntries.saysMapping (h : SaysEntries ts fs) :
    Says (⟨.blockMappingStart, start, stop⟩ :: (ts ++ [⟨.blockEnd, start', stop'⟩]))
      (Value.ofEntries fs) := by
  obtain ⟨ns, hns, hfs⟩ := h
  exact ⟨_, hns.isNode, build_mapping (hfs start start)⟩

/-! ### Documents -/

def ended (m : Mark) : NodeState := ⟨⟨[], .ok m⟩, commonHandles, []⟩

variable {m : Mark} {e : Failure}

lemma before_ended : before (ended m) ts = ⟨⟨ts, .ok m⟩, commonHandles, []⟩ := by
  simp [before, ended]

/-- A mapping is the content of a document. -/
lemma firstDocument_mapping (ht : t.word = .blockMappingStart ∨ t.word = .flowMappingStart)
    (ts : List Token) (fuel : Nat) (s : NodeState) :
    firstDocument fuel (before s (t :: ts))
      = node true false fuel (before s (t :: ts)) >>= fun x => .ok (some x.1, x.2) := by
  rw [firstDocument]
  simp only [bind, StateT.bind, Except.bind, peek_before]
  rcases ht with ht | ht <;> rw [ht] <;> rfl

/-- The tokens of a mapping, and nothing else. -/
lemma ofTokens?_eq_ok (ht : t.word = .blockMappingStart ∨ t.word = .flowMappingStart)
    (h : node true false (4 * (t :: ts).length + 16) (before (ended m) (t :: ts))
      = .ok (n, ended m)) :
    Node.ofTokens? ⟨t :: ts, .ok m⟩ = .ok (some n) := by
  have hfirst := firstDocument_mapping ht ts (4 * (t :: ts).length + 16) (ended m)
  have hends : documentEnds (4 * (t :: ts).length + 16) (ended m) = .ok ((), ended m) := rfl
  have hsingle : singleDocument (4 * (t :: ts).length + 16) (before (ended m) (t :: ts))
      = .ok (some n, ended m) := by
    rw [singleDocument]
    simp only [bind, StateT.bind, Except.bind, hfirst, h, hends]
    rfl
  rw [before_ended] at hsingle
  exact congrArg (Except.map (·.1)) hsingle

/-- Tokens that make no node make no document. -/
lemma ofTokens?_eq_error_of_node (ht : t.word = .blockMappingStart ∨ t.word = .flowMappingStart)
    (h : node true false (4 * (t :: ts).length + 16) (before (ended m) (t :: ts)) = .error e) :
    Node.ofTokens? ⟨t :: ts, .ok m⟩ = .error e := by
  have hfirst := firstDocument_mapping ht ts (4 * (t :: ts).length + 16) (ended m)
  have hsingle : singleDocument (4 * (t :: ts).length + 16) (before (ended m) (t :: ts))
      = .error e := by
    rw [singleDocument]
    simp only [bind, StateT.bind, Except.bind, hfirst, h]
  rw [before_ended] at hsingle
  exact congrArg (Except.map (·.1)) hsingle

/-- The tokens of a block mapping, and nothing else. -/
lemma ofTokens?_mapping {m : Mark} (h : IsNode (⟨.blockMappingStart, start, stop⟩ :: ts) n) :
    Node.ofTokens? ⟨⟨.blockMappingStart, start, stop⟩ :: ts, .ok m⟩ = .ok (some n) :=
  ofTokens?_eq_ok (.inl rfl) (h.node_eq false _ _ (Nat.le_add_right _ _))

end NodeReader

end Schematic.Yaml
