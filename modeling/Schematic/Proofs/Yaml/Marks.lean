import Schematic.Proofs.Yaml.Words

/-!
# Reading the marks of collections

What a reader in a block makes of dashes, question marks, colons and simple keys. The first mark of
a collection opens a block of its own where it is indented further than what is around it.
-/

namespace Schematic.Yaml.TokenReader

open Source

variable {m : Mark} {t : Text} {words : List Token} {indent : Int} {outers : List Int}
  {keyAllowed : Bool}

/-! ### Blocks that open at a mark -/

/-- The word for the start of a block, where the present one is indented less than a place. -/
def opening (word : Word) (m : Mark) (indent : Int) : List Token :=
  if indent < m.column then [⟨word, m, m⟩] else []

/-- The indentations around the block that is open at a place. -/
def outersAt (m : Mark) (indent : Int) (outers : List Int) : List Int :=
  if indent < m.column then indent :: outers else outers

/-- A block is opened where the column is past the indentation, and goes on otherwise. -/
lemma openBlock_inBlock (word : Word) (hmark : (ofText m t).mark = m) (hm : indent ≤ m.column) :
    (inBlock m t words indent outers keyAllowed).openBlock word
      = inBlock m t (opening word m indent ++ words) m.column (outersAt m indent outers)
          keyAllowed := by
  have hplace : (inBlock m t words indent outers keyAllowed).mark = m := hmark
  have hplace' : ((inBlock m t words indent outers keyAllowed).indentTo m.column).mark = m := hmark
  rw [openBlock, hplace, opensBlock, opening, outersAt]
  by_cases h : indent < m.column
  · have hopens : decide ((inBlock m t words indent outers keyAllowed).indent < m.column) = true :=
      decide_eq_true h
    rw [if_pos hopens, if_pos h, if_pos h, pushEmpty, hplace']
    rfl
  · have heq : indent = m.column := Int.le_antisymm hm (Int.not_lt.mp h)
    have hopens : ¬ decide ((inBlock m t words indent outers keyAllowed).indent < m.column)
        = true := by
      rw [decide_eq_true_iff]
      exact h
    rw [if_neg hopens, if_neg h, if_neg h, List.nil_append, heq]

/-- A mark and the blank after it. -/
lemma Runs.mark {c : Char} {word : Word} {outers' : List Int} {allowed : Bool} (block : List Token)
    (hline : StartsLine (.char c :: .char ' ' :: t)) (hm : indent ≤ m.column)
    (hword : (inBlock m (.char c :: .char ' ' :: t) words indent outers true).word c
        (ofText (m.next c) (.char ' ' :: t))
      = .ok (inBlock (m.next c) (.char ' ' :: t) (⟨word, m, m.next c⟩ :: (block ++ words)) m.column
          outers' allowed)) :
    Runs (inBlock m (.char c :: .char ' ' :: t) words indent outers true)
      (inBlock ((m.next c).next ' ') t (⟨word, m, m.next c⟩ :: (block ++ words)) m.column
        outers' allowed) := by
  have hstep : (inBlock m (.char c :: .char ' ' :: t) words indent outers true).step
      = .ok (some (inBlock (m.next c) (.char ' ' :: t) (⟨word, m, m.next c⟩ :: (block ++ words))
          m.column outers' allowed)) := by
    rw [step_inBlock hline hm, hword, ok_bind, dropStale_inBlock]
    rfl
  exact (Runs.of_step hstep (Nat.lt_succ_self _)).trans Runs.blank

lemma startsLine_mark {c : Char} (hc : c = '-' ∨ c = '?' ∨ c = ':') :
    StartsLine (.char c :: .char ' ' :: t) := by
  rcases hc with rfl | rfl | rfl <;>
    exact ⟨⟨_, _, rfl, by decide, by decide⟩, by simp, fun _ => rfl⟩

/-- A dash before an item. -/
lemma Runs.dash (words : List Token) (outers : List Int) (t : Text) (hm : indent ≤ m.column) :
    Runs (inBlock m ("- " ++ t) words indent outers true)
      (inBlock (m.after "- ") t (⟨.blockEntry, m, m.next '-'⟩ ::
        (opening .blockSequenceStart m indent ++ words)) m.column (outersAt m indent outers)
          true) := by
  refine Runs.mark (c := '-') (t := t) _ (startsLine_mark (.inl rfl)) hm ?_
  have hword : (inBlock m (.char '-' :: .char ' ' :: t) words indent outers true).word '-'
      (ofText (m.next '-') (.char ' ' :: t))
        = (inBlock m (.char '-' :: .char ' ' :: t) words indent outers true).blockEntry := by
    simp [word, inBlock, atTriple, peek, tail, atBlank, isSpaceOrTab]
  have hentry : (inBlock m (.char '-' :: .char ' ' :: t) words indent outers true).blockEntry
      = ((inBlock m (.char '-' :: .char ' ' :: t) words indent outers true).openBlock
          .blockSequenceStart).dropCandidate >>= fun r =>
            .ok { r.take .blockEntry 1 with keyAllowed := true } := rfl
  rw [hword, hentry, openBlock_inBlock .blockSequenceStart rfl hm]
  rfl

/-- A question mark before a key. -/
lemma Runs.question (words : List Token) (outers : List Int) (t : Text) (hm : indent ≤ m.column) :
    Runs (inBlock m ("? " ++ t) words indent outers true)
      (inBlock (m.after "? ") t (⟨.key, m, m.next '?'⟩ ::
        (opening .blockMappingStart m indent ++ words)) m.column (outersAt m indent outers)
          true) := by
  refine Runs.mark (c := '?') (t := t) _ (startsLine_mark (.inr (.inl rfl))) hm ?_
  have hword : (inBlock m (.char '?' :: .char ' ' :: t) words indent outers true).word '?'
      (ofText (m.next '?') (.char ' ' :: t))
        = (inBlock m (.char '?' :: .char ' ' :: t) words indent outers true).key := by
    simp [word, inBlock, inFlow, atTriple, peek, atBlank, isSpaceOrTab]
  have hkey : (inBlock m (.char '?' :: .char ' ' :: t) words indent outers true).key
      = ((inBlock m (.char '?' :: .char ' ' :: t) words indent outers true).openBlock
          .blockMappingStart).dropCandidate >>= fun r =>
            .ok { r.take .key 1 with keyAllowed := !r.inFlow } := rfl
  rw [hword, hkey, openBlock_inBlock .blockMappingStart rfl hm]
  rfl

/-- A colon before the value of a key that was marked. -/
lemma Runs.colon (words : List Token) (outers : List Int) (t : Text) :
    Runs (inBlock m (": " ++ t) words m.column outers true)
      (inBlock (m.after ": ") t (⟨.value, m, m.next ':'⟩ :: words) m.column outers true) := by
  have hm : (m.column : Int) ≤ m.column := Int.le_refl _
  have hword : (inBlock m (.char ':' :: .char ' ' :: t) words m.column outers true).word ':'
      (ofText (m.next ':') (.char ' ' :: t))
        = (inBlock m (.char ':' :: .char ' ' :: t) words m.column outers true).value := by
    simp [word, inBlock, inFlow, atTriple, peek, atBlank, isSpaceOrTab]
  have hvalue : (inBlock m (.char ':' :: .char ' ' :: t) words m.column outers true).value
      = ((inBlock m (.char ':' :: .char ' ' :: t) words m.column outers true).openBlock
          .blockMappingStart).dropCandidate >>= fun r =>
            .ok { r.take .value 1 with keyAllowed := !r.inFlow } := rfl
  have hopening : opening .blockMappingStart m m.column = [] := if_neg (Int.lt_irrefl _)
  have houters : outersAt m m.column outers = outers := if_neg (Int.lt_irrefl _)
  refine Runs.mark (c := ':') (t := t) [] (startsLine_mark (.inr (.inr rfl))) hm ?_
  rw [hword, hvalue, openBlock_inBlock .blockMappingStart rfl hm, hopening, houters]
  rfl

/-! ### Empty collections -/

/-- A reader between the brackets of a flow collection. -/
def inBrackets (r : TokenReader) : TokenReader := { r with flowLevel := 1 }

/-- Nothing is skipped within brackets where a line starts. -/
lemma skipBlanks_inBrackets (hline : StartsLine t) (cs : List (Nat × Candidate)) :
    ((inBlock m t words indent outers true).inBrackets.withCandidates cs).skipBlanks
      = (inBlock m t words indent outers true).inBrackets.withCandidates cs := by
  have hsource : ((inBlock m t words indent outers true).inBrackets.withCandidates cs).source
    = ofText m t := rfl
  rw [skipBlanks, hsource, nextWord_line (.inl hline)]
  rfl

/-- A closing bracket, where all that may turn out to be keys stand outside of the brackets. -/
lemma closeFlow_inBrackets {d : Char} (closes : Word) {cs : List (Nat × Candidate)}
    (hlevel : ∀ c ∈ cs, c.1 = 0) (ht : (ofText (m.next d) t).mark = m.next d) :
    ((inBlock m (.char d :: t) words indent outers true).inBrackets.withCandidates cs).closeFlow
        closes
      = .ok ((inBlock (m.next d) t (⟨closes, m, m.next d⟩ :: words) indent outers
          false).withCandidates cs) := by
  let r := (inBlock m (.char d :: t) words indent outers true).inBrackets.withCandidates cs
  have hlookup : r.candidates.lookup r.flowLevel = none := by
    refine List.lookup_eq_none_iff.mpr fun c hc => ?_
    rw [hlevel c hc]
    rfl
  have hdrop : r.dropCandidate = .ok r := by
    rw [dropCandidate, hlookup]
  rw [closeFlow, hdrop, ok_bind]
  change Except.ok ((inBlock (m.next d) t (⟨closes, m, (ofText (m.next d) t).mark⟩ :: words) indent
    outers false).withCandidates cs) = _
  rw [ht]

/-- A closing bracket is the next word within brackets. -/
lemma step_inBrackets {d : Char} {closes : Word} {cs : List (Nat × Candidate)}
    (hline : StartsLine (.char d :: t)) (hcs : AreOptional cs) (hlevel : ∀ c ∈ cs, c.1 = 0)
    (hword : ∀ cs, ((inBlock m (.char d :: t) words indent outers true).inBrackets.withCandidates
      cs).word d (ofText (m.next d) t)
        = ((inBlock m (.char d :: t) words indent outers true).inBrackets.withCandidates
            cs).closeFlow closes) (ht : (ofText (m.next d) t).mark = m.next d) :
    ∃ cs', cs' ⊆ cs ∧
      ((inBlock m (.char d :: t) words indent outers true).inBrackets.withCandidates cs).step
        = .ok (some ((inBlock (m.next d) t (⟨closes, m, m.next d⟩ :: words) indent outers
            false).withCandidates cs')) := by
  let r := (inBlock m (.char d :: t) words indent outers true).inBrackets
  let kept := cs.filter fun c => !r.isStale c.2
  have hkept : kept ⊆ cs := List.filter_subset_self _
  have hstep : (r.withCandidates cs).step = (r.withCandidates kept).closeFlow closes >>= fun r =>
      r.dropStale >>= fun r => .ok (some r) := by
    rw [step, skipBlanks_inBrackets hline, dropStale_withCandidates hcs, ok_bind, ← hword]
    rfl
  refine ⟨kept.filter fun c => !(inBlock (m.next d) t (⟨closes, m, m.next d⟩ :: words) indent
    outers false).isStale c.2, fun c hc => hkept (List.mem_of_mem_filter hc), ?_⟩
  rw [hstep, closeFlow_inBrackets closes (fun c hc => hlevel c (hkept hc)) ht, ok_bind,
    dropStale_withCandidates fun c hc => hcs c (hkept hc)]
  rfl

/-- Two brackets with nothing in between, at the end of a line. -/
lemma Runs.brackets {c d : Char} {opens closes : Word} {n : Nat} {next : Text} (words : List Token)
    (outers : List Int) (hc : StartsLine (.char c :: .char d :: (newLine n ++ next)))
    (hd : StartsLine (.char d :: (newLine n ++ next)))
    (hopens : (inBlock m (.char c :: .char d :: (newLine n ++ next)) words indent outers
      keyAllowed).word c (ofText (m.next c) (.char d :: (newLine n ++ next)))
        = (inBlock m (.char c :: .char d :: (newLine n ++ next)) words indent outers
            keyAllowed).openFlow opens)
    (hcloses : ∀ m words cs, ((inBlock m (.char d :: (newLine n ++ next)) words indent outers
      true).inBrackets.withCandidates cs).word d (ofText (m.next d) (newLine n ++ next))
        = ((inBlock m (.char d :: (newLine n ++ next)) words indent outers
            true).inBrackets.withCandidates cs).closeFlow closes)
    (hm : indent ≤ m.column) (hkey : keyAllowed = true → indent ≠ m.column)
    (hline : m.line ≤ ((m.next c).next d).line) (hnext : FollowsLine n next) :
    Runs (inBlock m (.char c :: .char d :: (newLine n ++ next)) words indent outers keyAllowed)
      (inBlock (((m.next c).next d).after (newLine n)) next
        (⟨closes, m.next c, (m.next c).next d⟩ :: ⟨opens, m, m.next c⟩ :: words)
        indent outers true) := by
  let cs := candidate m words.length indent keyAllowed
  have hoptional : AreOptional cs := areOptional_candidate words hkey
  let r := (inBlock (m.next c) (.char d :: (newLine n ++ next)) (⟨opens, m, m.next c⟩ :: words)
    indent outers true).inBrackets
  -- The opening bracket leaves the candidate for a key outside of the brackets.
  have hopen : (inBlock m (.char c :: .char d :: (newLine n ++ next)) words indent outers
      keyAllowed).openFlow opens = .ok (r.withCandidates cs) := by
    rw [openFlow, addCandidate_inBlock rfl]
    rfl
  let kept := cs.filter fun c => !r.isStale c.2
  have hstep : (inBlock m (.char c :: .char d :: (newLine n ++ next)) words indent outers
      keyAllowed).step = .ok (some (r.withCandidates kept)) := by
    rw [step_inBlock hc hm, hopens, hopen, ok_bind, dropStale_withCandidates hoptional]
    rfl
  have hkept : kept ⊆ cs := List.filter_subset_self _
  -- The closing bracket drops what could be a key inside of them, which is nothing.
  obtain ⟨cs', hcs', hstep'⟩ := step_inBrackets hd (fun c hc => hoptional c (hkept hc))
    (fun c hc => (eq_of_mem_candidate (hkept hc)).1) (hcloses (m.next c) _) rfl
  refine (Runs.of_step hstep (Nat.lt_succ_self _)).trans
    ((Runs.of_step hstep' (Nat.lt_succ_self _)).trans (Runs.lineEnd hnext ?_ fun e he => ?_))
  · exact fun e he => hoptional e (hkept (hcs' he))
  · rw [(eq_of_mem_candidate (hkept (hcs' he))).2]
    exact hline

/-- A bracket starts a line. -/
lemma startsLine_bracket {c : Char} (hc : c ∈ ['[', ']', '\x7b', '\x7d']) :
    StartsLine (.char c :: t) := by
  have hprintable : ∀ c ∈ ['[', ']', '\x7b', '\x7d'], ' ' < c ∧ c ≤ '~' ∧ c ≠ '#' ∧ c ≠ '-' ∧
      c ≠ '.' :=
    forall_mem_of_all (by decide +kernel)
  obtain ⟨hlow, hhigh, hcomment, hdash, hdot⟩ := hprintable c hc
  refine ⟨⟨c, t, rfl, hlow, hhigh⟩, by simpa using hcomment, fun m => ?_⟩
  simp [atDocumentMarker, atTriple, peek, hdash, hdot]

/-- An empty array at the end of a line. -/
lemma Runs.emptyArray {n : Nat} {next : Text} (words : List Token) (outers : List Int)
    (hm : indent ≤ m.column) (hkey : keyAllowed = true → indent ≠ m.column)
    (hnext : FollowsLine n next) :
    ∃ start stop, Runs (inBlock m ("[]" ++ (newLine n ++ next)) words indent outers keyAllowed)
      (inBlock ((m.after "[]").after (newLine n)) next (⟨.flowSequenceEnd, start, stop⟩ ::
        ⟨.flowSequenceStart, m, start⟩ :: words) indent outers true) :=
  ⟨_, _, Runs.brackets (c := '[') (d := ']') words outers (startsLine_bracket (by decide))
    (startsLine_bracket (by decide)) (by simp [word, inBlock, atTriple, peek])
    (fun _ _ _ => by simp [word, inBlock, inBrackets, withCandidates, atTriple, peek]) hm hkey
    (Nat.le_refl _) hnext⟩

/-- An empty object at the end of a line. -/
lemma Runs.emptyObject {n : Nat} {next : Text} (words : List Token) (outers : List Int)
    (hm : indent ≤ m.column) (hkey : keyAllowed = true → indent ≠ m.column)
    (hnext : FollowsLine n next) :
    ∃ start stop,
      Runs (inBlock m ("\x7b\x7d" ++ (newLine n ++ next)) words indent outers keyAllowed)
        (inBlock ((m.after "\x7b\x7d").after (newLine n)) next
          (⟨.flowMappingEnd, start, stop⟩ :: ⟨.flowMappingStart, m, start⟩ :: words)
          indent outers true) :=
  ⟨_, _, Runs.brackets (c := '\x7b') (d := '\x7d') words outers (startsLine_bracket (by decide))
    (startsLine_bracket (by decide)) (by simp [word, inBlock, atTriple, peek])
    (fun _ _ _ => by simp [word, inBlock, inBrackets, withCandidates, atTriple, peek]) hm hkey
    (Nat.le_refl _) hnext⟩

end Schematic.Yaml.TokenReader
