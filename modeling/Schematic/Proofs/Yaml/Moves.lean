import Mathlib.Tactic.Lemma
import Mathlib.Tactic.SplitIfs
import Schematic.Proofs.Yaml.Scan
import Schematic.Proofs.Yaml.Stop

/-!
# Steps of the reader of words

Every step of the reader goes over a part of the source and puts out words, of which none is the end
of the stream; where it fails, the part holds what it fails at. So do all steps together.
-/

namespace Schematic.Yaml

open Source

/-! ### Single words -/

/-- A reader of a word leaves an end of a source, and its word is not the end of the stream. -/
structure Puts (s : Source) (r : Except Failure (Word × Source)) : Prop
    extends Leaves Prod.snd s r where
  proper : ∀ p, r = .ok p → p.1 ≠ .streamEnd

variable {s t : Source}

lemma puts_ok {p : Word × Source} (h : IsLeft p.2 s) (hp : p.1 ≠ .streamEnd) : Puts s (.ok p) where
  toLeaves := leaves_ok h
  proper := by
    rintro _ ⟨⟩
    exact hp

lemma puts_refuse (context : Option Context) (since : Option Mark) (problem : Problem)
    (mark : Mark) :
    Puts s (refuse context since problem mark) where
  toLeaves := leaves_refuse _ _ _ _
  proper := by rintro _ ⟨⟩

lemma Puts.of_isLeft {r : Except Failure (Word × Source)} (h : Puts t r) (hts : IsLeft t s) :
    Puts s r where
  toLeaves := h.toLeaves.of_isLeft hts
  proper := h.proper

/-- A word that is made of a text. -/
lemma puts_bind {r : Except Failure (Text × Source)}
    {f : Text × Source → Except Failure (Word × Source)} (h : Leaves Prod.snd s r)
    (hf : ∀ p, Puts p.2 (f p)) : Puts s (r >>= f) where
  toLeaves := h.bind fun p => (hf p).toLeaves
  proper := by
    cases r with
    | error e => rintro _ ⟨⟩
    | ok p => exact (hf p).proper

/-- A tag leaves an end of the source. -/
lemma puts_tagWord (s : Source) : Puts s (tagWord s) := by
  have htail := isLeft_tail s
  -- A gap comes after a tag.
  have hend {p : Word × Source} (hp : p.1 ≠ .streamEnd) :
      Puts p.2 (if p.2.atGap = true then .ok (p.1, p.2) else
        refuse (some .tag) (some s.mark) (.expectedCharacter ' ' p.2.peek) p.2.mark) := by
    split
    · exact puts_ok (.refl _) hp
    · exact puts_refuse _ _ _ _
  have hnamed (q : Text × Source) : Puts q.2 (do
      let p ← uri false s.mark q.2
      if p.2.atGap = true then .ok (.tag (some q.1) p.1, p.2) else
        refuse (some .tag) (some s.mark) (.expectedCharacter ' ' p.2.peek) p.2.mark) :=
    puts_bind (leaves_uri s.mark false q.2)
      fun p => hend (p := (.tag (some q.1) p.1, p.2)) (by simp)
  unfold tagWord
  dsimp only
  split
  · refine Puts.of_isLeft ?_ ((isLeft_tail s.tail).trans htail)
    refine puts_bind (leaves_uri s.mark false _) fun p => ?_
    split
    · exact puts_refuse _ _ _ _
    · exact (hend (p := (.tag none p.1, p.2.tail)) (by simp)).of_isLeft (isLeft_tail p.2)
  · split
    · exact (hend (p := (.tag none "!", s.tail)) (by simp)).of_isLeft htail
    · split
      · exact puts_bind (leaves_tagHandle .tag s.mark s) hnamed
      · exact (hnamed ("!", s.tail)).of_isLeft htail

namespace TokenReader

lemma puts_anchorWord (context : Context) {word : Text → Word} (hword : ∀ t, word t ≠ .streamEnd)
    (s : Source) : Puts s (anchorWord context word s) :=
  puts_bind (leaves_anchorName context s) fun _ => puts_ok (.refl _) (hword _)

lemma puts_quotedWord (double : Bool) (s : Source) : Puts s (quotedWord double s) :=
  puts_bind (leaves_quotedScalar double s) fun _ => puts_ok (.refl _) (by simp)

/-! ### Readers -/

/-- The end of the stream is not among the words of a reader. -/
def IsOpen (r : TokenReader) : Prop := ∀ t ∈ r.produced, t.word ≠ .streamEnd

/-- A reader is further on than another one. -/
structure Follows (u r : TokenReader) : Prop where
  source : IsLeft u.source r.source
  isOpen : r.IsOpen → u.IsOpen

/-- A computation moves a reader on, or fails at a part of the source that is left to it. -/
structure Moves (r : TokenReader) (x : Except Failure TokenReader) : Prop where
  follows : ∀ u, x = .ok u → u.Follows r
  failure : ∀ f, x = .error f → f.IsFoundIn r.source.chars

variable {r u v : TokenReader} {w : Word} {x y : Except Failure TokenReader}

lemma Follows.refl (r : TokenReader) : r.Follows r := ⟨.refl _, id⟩

lemma Follows.trans (h : v.Follows u) (h' : u.Follows r) : v.Follows r :=
  ⟨h.source.trans h'.source, h.isOpen ∘ h'.isOpen⟩

lemma follows_push (hw : w ≠ .streamEnd) (start stop : Mark) (r : TokenReader) :
    (r.push w start stop).Follows r := ⟨.refl _, fun h => List.forall_mem_cons.mpr ⟨hw, h⟩⟩

lemma follows_take (hw : w ≠ .streamEnd) (length : Nat) (r : TokenReader) :
    (r.take w length).Follows r :=
  ⟨isLeft_drop _ _, fun h => List.forall_mem_cons.mpr ⟨hw, h⟩⟩

/-- A token that is put in goes after the others. -/
lemma follows_insert {t : Token} (ht : t.word ≠ .streamEnd) (number : Nat) (r : TokenReader) :
    (r.insert number t).Follows r := by
  refine ⟨.refl _, fun h u hu => ?_⟩
  rcases List.mem_append.mp hu with hu | hu
  · exact h u (List.mem_of_mem_take hu)
  · rcases List.mem_cons.mp hu with rfl | hu
    · exact ht
    · exact h u (List.mem_of_mem_drop hu)

/-- Blocks that are closed add tokens only. -/
lemma follows_closeBlocks (column : Int) (outers : List Int) (indent : Int) (r : TokenReader) :
    (closeBlocks column outers indent r).Follows r := by
  induction outers generalizing indent r with
  | nil => exact ⟨.refl _, id⟩
  | cons outer outers ih =>
    rw [closeBlocks]
    split
    · exact (ih outer _).trans (follows_push (by simp) _ _ r)
    · exact ⟨.refl _, id⟩

lemma follows_unwind (column : Int) (r : TokenReader) : (r.unwind column).Follows r := by
  unfold unwind
  split
  · exact .refl r
  · exact follows_closeBlocks column _ _ r

lemma follows_openBlock (hw : w ≠ .streamEnd) (r : TokenReader) : (r.openBlock w).Follows r := by
  unfold openBlock
  split
  · exact ⟨.refl _, (follows_push hw _ _ (r.indentTo _)).isOpen⟩
  · exact .refl r

/-- The next word is at an end of the source. -/
lemma isLeft_nextWord (inComment broken : Bool) (s : Source) :
    IsLeft (nextWord inComment broken s).2 s := by
  induction s generalizing inComment broken with
  | done m => exact .refl _
  | more c m s ih =>
    rw [nextWord]
    split_ifs
    · exact (ih _ _).more
    · exact (ih _ _).more
    · exact (ih _ _).more
    · exact .refl _

lemma follows_skipBlanks (r : TokenReader) : r.skipBlanks.Follows r := ⟨isLeft_nextWord _ _ _, id⟩

/-! ### Computations -/

lemma moves_ok (h : u.Follows r) : Moves r (.ok u) where
  follows := by
    rintro _ ⟨⟩
    exact h
  failure := by rintro _ ⟨⟩

/-- A refusal moves no reader. -/
lemma moves_refuse (context : Option Context) (since : Option Mark) (problem : Problem)
    (mark : Mark) :
    Moves r (refuse context since problem mark) where
  follows := by rintro _ ⟨⟩
  failure := by
    rintro _ ⟨⟩
    exact .refused _

lemma Moves.of_follows (h : Moves u x) (hur : u.Follows r) : Moves r x where
  follows v hv := (h.follows v hv).trans hur
  failure f hf := (h.failure f hf).mono hur.source.isInfix

/-- Readers that move on one after the other move on together. -/
lemma Moves.bind {f : TokenReader → Except Failure TokenReader} (h : Moves r x)
    (hf : ∀ u, Moves u (f u)) : Moves r (x >>= f) := by
  cases x with
  | error e =>
    refine ⟨by rintro _ ⟨⟩, ?_⟩
    rintro _ ⟨⟩
    exact h.failure e rfl
  | ok u => exact (hf u).of_follows (h.follows u rfl)

lemma Moves.ite {c : Prop} [Decidable c] (hx : c → Moves r x) (hy : Moves r y) :
    Moves r (if c then x else y) := by
  split
  · exact hx ‹c›
  · exact hy

/-- A reader that goes on where a reader of words stops. -/
lemma moves_of_leaves {α : Type} {rest : α → Source} {read : Except Failure α} {f : α → TokenReader}
    (h : Leaves rest r.source read)
    (hf : ∀ a, read = .ok a → (f a).source = rest a ∧ (r.IsOpen → (f a).IsOpen)) :
    Moves r (read >>= fun a => .ok (f a)) := by
  cases read with
  | error e =>
    refine ⟨by rintro _ ⟨⟩, ?_⟩
    rintro _ ⟨⟩
    exact h.failure e rfl
  | ok a =>
    obtain ⟨hsource, hopen⟩ := hf a rfl
    exact moves_ok ⟨hsource ▸ h.rest a rfl, hopen⟩

/-! ### Candidates -/

lemma moves_dropStale (r : TokenReader) : Moves r r.dropStale := by
  unfold dropStale
  split
  · exact moves_refuse _ _ _ _
  · exact moves_ok ⟨.refl _, id⟩

/-- A candidate that is dropped moves no reader. -/
lemma moves_dropCandidate (r : TokenReader) : Moves r r.dropCandidate := by
  unfold dropCandidate
  split
  · split
    · exact moves_refuse _ _ _ _
    · exact moves_ok ⟨.refl _, id⟩
  · exact moves_ok (.refl r)

lemma moves_addCandidate (r : TokenReader) : Moves r r.addCandidate := by
  unfold addCandidate
  split
  · exact (moves_dropCandidate r).bind fun u => moves_ok ⟨.refl _, id⟩
  · exact moves_ok (.refl r)

lemma moves_leaveBlocks (r : TokenReader) : Moves r r.leaveBlocks :=
  Moves.of_follows (Moves.bind (moves_dropCandidate _) fun _ => moves_ok ⟨.refl _, id⟩)
    (follows_unwind (-1) r)

/-- Blocks are closed without reading on. -/
lemma source_closeBlocks (column : Int) (outers : List Int) (indent : Int) (r : TokenReader) :
    (closeBlocks column outers indent r).source = r.source := by
  induction outers generalizing indent r with
  | nil => rfl
  | cons outer outers ih =>
    rw [closeBlocks]
    split
    · exact ih outer _
    · rfl

/-- Blocks are closed on the spot. -/
lemma source_of_leaveBlocks (h : r.leaveBlocks = .ok u) : u.source = r.source := by
  obtain ⟨v, hv, ⟨⟩⟩ := exists_of_bind_eq_ok h
  have hdrop : v.source = (r.unwind (-1)).source := by
    unfold dropCandidate at hv
    split at hv
    · split at hv
      · cases hv
      · cases hv
        rfl
    · cases hv
      rfl
  refine hdrop.trans ?_
  unfold unwind
  split
  · rfl
  · exact source_closeBlocks _ _ _ _

/-! ### Words -/

lemma moves_keyWord {read : Source → Except Failure (Word × Source)} (hread : ∀ s, Puts s (read s))
    (r : TokenReader) : Moves r (r.keyWord read) := by
  refine (moves_addCandidate r).bind
    fun u => moves_of_leaves (hread u.source).toLeaves fun p hp => ?_
  exact ⟨rfl, fun h => List.forall_mem_cons.mpr ⟨(hread u.source).proper p hp, h⟩⟩

/-- An indicator in front of a part of a block. -/
lemma moves_blockIndicator {opening indicator : Word} (hopening : opening ≠ .streamEnd)
    (hindicator : indicator ≠ .streamEnd) (keyAllowed : TokenReader → Bool) (r : TokenReader) :
    Moves r ((if r.inFlow then r else r.openBlock opening).dropCandidate >>= fun u =>
      .ok { u.take indicator 1 with keyAllowed := keyAllowed u }) := by
  have hopen : (if r.inFlow then r else r.openBlock opening).Follows r := by
    split
    · exact .refl r
    · exact follows_openBlock hopening r
  refine Moves.of_follows ((moves_dropCandidate _).bind fun u => moves_ok ?_) hopen
  exact ⟨isLeft_drop _ _, (follows_take hindicator 1 u).isOpen⟩

lemma moves_blockEntry (r : TokenReader) : Moves r r.blockEntry := by
  unfold blockEntry
  split
  · exact moves_refuse _ _ _ _
  · exact moves_blockIndicator (by simp) (by simp) (fun _ => true) r

lemma moves_key (r : TokenReader) : Moves r r.key := by
  unfold key
  split
  · exact moves_refuse _ _ _ _
  · exact moves_blockIndicator (by simp) (by simp) (fun u => !u.inFlow) r

/-- A value follows the tokens before it. -/
lemma follows_valueOf (c : Candidate) (r : TokenReader) : (r.valueOf c).Follows r := by
  have hfree : Follows { r with candidates := r.candidates.filter fun c => c.1 != r.flowLevel } r :=
    ⟨.refl _, id⟩
  have hkey := (follows_insert (t := ⟨.key, c.mark, c.mark⟩) (by simp) c.number _).trans hfree
  have htake (u : TokenReader) : Follows { u.take .value 1 with keyAllowed := false } u :=
    ⟨isLeft_drop _ _, (follows_take (w := .value) (by simp) 1 u).isOpen⟩
  unfold valueOf
  refine (htake _).trans ?_
  split
  · refine Follows.trans (follows_insert (by simp) c.number _) ?_
    exact ⟨hkey.source, hkey.isOpen⟩
  · exact hkey

/-- A colon moves the reader on. -/
lemma moves_value (r : TokenReader) : Moves r r.value := by
  unfold value
  split
  · exact moves_ok (follows_valueOf _ r)
  · split
    · exact moves_refuse _ _ _ _
    · exact moves_blockIndicator (by simp) (by simp) (fun u => !u.inFlow) r

lemma moves_openFlow (hw : w ≠ .streamEnd) (r : TokenReader) : Moves r (r.openFlow w) :=
  (moves_addCandidate r).bind fun u => moves_ok ⟨isLeft_drop _ _, (follows_take hw 1 u).isOpen⟩

lemma moves_closeFlow (hw : w ≠ .streamEnd) (r : TokenReader) : Moves r (r.closeFlow w) :=
  (moves_dropCandidate r).bind fun u => moves_ok ⟨isLeft_drop _ _, (follows_take hw 1 u).isOpen⟩

lemma moves_flowEntry (r : TokenReader) : Moves r r.flowEntry :=
  (moves_dropCandidate r).bind fun u =>
    moves_ok ⟨isLeft_drop _ _, (follows_take (w := .flowEntry) (by simp) 1 u).isOpen⟩

lemma moves_documentMarker (hw : w ≠ .streamEnd) (r : TokenReader) : Moves r (r.documentMarker w) :=
  (moves_leaveBlocks r).bind fun u => moves_ok (follows_take hw 3 u)

/-- A directive starts at a percent sign. -/
lemma moves_directive {m : Mark} {rest : Source} (h : r.source = .more '%' m rest) :
    Moves r r.directive := by
  unfold directive
  cases hleave : r.leaveBlocks with
  | error e =>
    refine ⟨by rintro _ ⟨⟩, ?_⟩
    rintro _ ⟨⟩
    exact (moves_leaveBlocks r).failure e hleave
  | ok u =>
    have hsource : u.source = .more '%' m rest := (source_of_leaveBlocks hleave).trans h
    have hword := leaves_directiveWord m rest
    rw [← hsource] at hword
    refine Moves.of_follows (moves_of_leaves hword fun p _ => ⟨rfl, ?_⟩)
      ((moves_leaveBlocks r).follows u hleave)
    exact (follows_push (by simp) _ _ u).isOpen

lemma moves_blockScalar (isFolded : Bool) (r : TokenReader) : Moves r (r.blockScalar isFolded) := by
  refine (moves_dropCandidate r).bind fun u => ?_
  refine moves_of_leaves (leaves_blockScalar isFolded u.indent u.source) fun p _ => ⟨rfl, ?_⟩
  exact (follows_push (by simp) _ _ u).isOpen

lemma moves_plainScalar (r : TokenReader) : Moves r r.plainScalar :=
  (moves_addCandidate r).bind fun u =>
    moves_ok ⟨isLeft_plainScalar _ _ _, (follows_push (by simp) _ _ u).isOpen⟩

/-- A word moves the reader on, or fails by what is found in it. -/
lemma moves_word {c : Char} {m : Mark} {rest : Source} (h : r.source = .more c m rest) :
    Moves r (r.word c rest) := by
  unfold word
  refine Moves.ite (fun hc => moves_directive (hc.1 ▸ h)) ?_
  refine Moves.ite (fun _ => moves_documentMarker (by simp) r) ?_
  refine Moves.ite (fun _ => moves_documentMarker (by simp) r) ?_
  refine Moves.ite (fun _ => moves_openFlow (by simp) r) ?_
  refine Moves.ite (fun _ => moves_openFlow (by simp) r) ?_
  refine Moves.ite (fun _ => moves_closeFlow (by simp) r) ?_
  refine Moves.ite (fun _ => moves_closeFlow (by simp) r) ?_
  refine Moves.ite (fun _ => moves_flowEntry r) ?_
  refine Moves.ite (fun _ => moves_blockEntry r) (Moves.ite (fun _ => moves_key r) ?_)
  refine Moves.ite (fun _ => moves_value r) ?_
  refine Moves.ite (fun _ => moves_keyWord (puts_anchorWord _ (by simp)) r) ?_
  refine Moves.ite (fun _ => moves_keyWord (puts_anchorWord _ (by simp)) r) ?_
  refine Moves.ite (fun _ => moves_keyWord puts_tagWord r) ?_
  refine Moves.ite (fun _ => moves_blockScalar false r) ?_
  refine Moves.ite (fun _ => moves_blockScalar true r) ?_
  refine Moves.ite (fun _ => moves_keyWord (puts_quotedWord false) r) ?_
  refine Moves.ite (fun _ => moves_keyWord (puts_quotedWord true) r) ?_
  exact Moves.ite (fun _ => moves_plainScalar r) (moves_refuse _ _ _ _)

/-! ### Steps -/

/-- What a reader does before it looks at the next word. -/
def ready (r : TokenReader) : Except Failure TokenReader := do
  let r ← r.skipBlanks.dropStale
  return r.unwind r.mark.column

/-- Read the word in front of a reader, or nothing at the end of the source. -/
def wordAhead (r : TokenReader) : Except Failure (Option TokenReader) :=
  match r.source with
  | .done _ => return none
  | .more c _ rest => do return some (← (← r.word c rest).dropStale)

lemma step_eq (r : TokenReader) : r.step = r.ready >>= wordAhead := by
  rw [step, ready]
  cases r.skipBlanks.dropStale <;> rfl

lemma moves_ready (r : TokenReader) : Moves r r.ready :=
  Moves.bind ((moves_dropStale _).of_follows (follows_skipBlanks r)) fun u =>
    moves_ok (follows_unwind _ u)

/-- A step moves the reader on, unless it is at the end of the source. -/
lemma step_moves (r : TokenReader) : r.step = .ok none ∨ ∃ x, Moves r x ∧ r.step = x.map some := by
  rw [step_eq]
  cases hready : r.ready with
  | error e => exact .inr ⟨.error e, hready ▸ moves_ready r, rfl⟩
  | ok u =>
    have hu : u.Follows r := (moves_ready r).follows u hready
    rw [ok_bind, wordAhead]
    cases hsource : u.source with
    | done m => exact .inl rfl
    | more c m rest =>
      refine .inr ⟨_, ((moves_word hsource).bind moves_dropStale).of_follows hu, ?_⟩
      dsimp only
      cases u.word c rest with
      | error e => rfl
      | ok v => cases hv : v.dropStale <;> simp [hv, Except.map]

lemma moves_finish (r : TokenReader) : Moves r r.finish :=
  Moves.bind ((moves_dropStale _).of_follows (follows_skipBlanks r)) fun u =>
    (moves_dropCandidate _).of_follows (follows_unwind (-1) u)

/-- No reader puts out the end of the stream. -/
theorem IsOpen.run (h : r.IsOpen) (fuel : Nat) : ∀ t ∈ (r.run fuel).ready, t.word ≠ .streamEnd := by
  have hstopped (r : TokenReader) (h : r.IsOpen) (e : Failure) :
      ∀ t ∈ (r.stopped e).ready, t.word ≠ .streamEnd :=
    fun t ht => h t (List.mem_reverse.mp (List.mem_of_mem_take ht))
  induction fuel generalizing r with
  | zero => exact fun t ht => h t (List.mem_reverse.mp ht)
  | succ fuel ih =>
    rw [TokenReader.run]
    rcases step_moves r with hstep | ⟨x, hx, hstep⟩
    · rw [hstep]
      cases hfinish : r.finish with
      | error e => exact hstopped r h e
      | ok u =>
        exact fun t ht => ((moves_finish r).follows u hfinish).isOpen h t (List.mem_reverse.mp ht)
    · rw [hstep]
      cases x with
      | error e => exact hstopped r h e
      | ok u => exact ih ((hx.follows u rfl).isOpen h)

/-- What all steps fail at is a part of the source. -/
theorem isFoundIn_of_run {fuel : Nat} {f : Failure} (h : (r.run fuel).stop = .error f) :
    f.IsFoundIn r.source.chars := by
  induction fuel generalizing r with
  | zero => cases h
  | succ fuel ih =>
    rw [TokenReader.run] at h
    rcases step_moves r with hstep | ⟨x, hx, hstep⟩
    · rw [hstep] at h
      cases hfinish : r.finish with
      | error e =>
        rw [hfinish] at h
        cases h
        exact (moves_finish r).failure f hfinish
      | ok u =>
        rw [hfinish] at h
        cases h
    · rw [hstep] at h
      cases x with
      | error e =>
        cases h
        exact hx.failure f rfl
      | ok u => exact (ih h).mono (hx.follows u rfl).source.isInfix

end TokenReader

/-! ### Texts -/

/-- What stands at the start of a source stands at the start of its characters. -/
lemma isPrefix_of_ofCharsAt {ds cs : List Char} {m : Mark} (h : ds <+: (ofCharsAt m cs).chars)
    (hds : '\r' ∉ ds) : ds <+: cs := by
  induction m, cs using ofCharsAt.induct generalizing ds with
  | case1 m => exact h
  | case2 m rest ih =>
    rcases List.prefix_cons_iff.mp h with rfl | ⟨ds, rfl, -⟩
    · exact List.nil_prefix
    · simp at hds
  | case3 m c rest hc ih =>
    rw [ofCharsAt.eq_3 m c rest hc] at h
    rcases List.prefix_cons_iff.mp h with rfl | ⟨ds, rfl, hrest⟩
    · exact List.nil_prefix
    · exact List.cons_prefix_cons.mpr ⟨rfl, ih hrest fun hr => hds (List.mem_cons_of_mem _ hr)⟩

/-- Characters without a carriage return stand in a text as they do in its source. -/
lemma isInfix_of_ofCharsAt {ds cs : List Char} {m : Mark} (h : ds <:+: (ofCharsAt m cs).chars)
    (hds : '\r' ∉ ds) : ds <:+: cs := by
  induction m, cs using ofCharsAt.induct generalizing ds with
  | case1 m => exact h
  | case2 m rest ih =>
    rcases List.infix_cons_iff.mp h with hstart | hlater
    · exact (isPrefix_of_ofCharsAt (m := m) hstart hds).isInfix
    · exact (ih hlater hds).trans (List.suffix_append ['\r', '\n'] rest).isInfix
  | case3 m c rest hc ih =>
    rw [ofCharsAt.eq_3 m c rest hc] at h
    rcases List.infix_cons_iff.mp h with hstart | hlater
    · refine (isPrefix_of_ofCharsAt (m := m) ?_ hds).isInfix
      rw [ofCharsAt.eq_3 m c rest hc]
      exact hstart
    · exact (ih hlater hds).trans (List.suffix_cons c rest).isInfix

/-- What stands in a source stands in its characters. -/
lemma isInfix_of_ofChars {ds cs : List Char} (h : ds <:+: (ofChars cs).chars) (hds : '\r' ∉ ds) :
    ds <:+: cs := by
  unfold ofChars at h
  split at h
  · exact (isInfix_of_ofCharsAt h hds).trans (List.suffix_cons _ _).isInfix
  · exact isInfix_of_ofCharsAt h hds

/-- A failure by what is found in a source is one by what is found in its characters. -/
lemma Failure.IsFoundIn.of_ofChars {cs : List Char} {f : Failure}
    (h : f.IsFoundIn (ofChars cs).chars) :
    f.IsFoundIn cs := by
  cases h with
  | refused e => exact .refused e
  | version before digits hbefore hdigits hlength h =>
    have hr : '\r' ∉ before ++ digits := by
      intro hr
      rcases List.mem_append.mp hr with hr | hr
      · exact absurd (hbefore _ hr) (by decide)
      · exact absurd (hdigits _ hr) (by decide)
    exact .version before digits hbefore hdigits hlength (isInfix_of_ofChars h (by simpa using hr))
  | point digits hdigits hlength hvalue h =>
    have hr : '\r' ∉ digits := fun hr => absurd (hdigits _ hr) (by decide)
    exact .point digits hdigits hlength hvalue (isInfix_of_ofChars h (by simpa using hr))

/-- A text that a document may hold is one of characters. -/
lemma exists_chars_of_acceptable {t : Text} (h : ∀ c ∈ t, isAcceptablePoint c) :
    ∃ cs, t = Text.ofChars cs ∧ t.chars? = some cs := by
  induction t with
  | nil => exact ⟨[], rfl, rfl⟩
  | cons c t ih =>
    obtain ⟨hc, ht⟩ := List.forall_mem_cons.mp h
    obtain ⟨cs, rfl, hcs⟩ := ih ht
    cases c with
    | lone half => cases hc
    | char d =>
      refine ⟨d :: cs, rfl, ?_⟩
      rw [Text.chars?] at hcs ⊢
      rw [List.mapM_cons, hcs]
      rfl

/-- A text that has no node is refused, or holds what its reading fails at. -/
theorem exists_chars_of_compose {t : Text} {f : Failure} (h : compose t = .error f) :
    (∃ e, f = .refused e) ∨ ∃ cs, t = Text.ofChars cs ∧ f.IsFoundIn cs := by
  rw [compose, acceptableChars] at h
  split at h
  · cases h
    exact .inl ⟨_, rfl⟩
  · rename_i hfind
    have hacceptable : ∀ c ∈ t, isAcceptablePoint c := by simpa using hfind
    obtain ⟨cs, hchars, hcs⟩ := exists_chars_of_acceptable hacceptable
    rw [hcs] at h
    refine (failure_of_ofTokens? h).imp_right fun hstop => ⟨cs, hchars, ?_⟩
    exact (TokenReader.isFoundIn_of_run hstop).of_ofChars

end Schematic.Yaml
