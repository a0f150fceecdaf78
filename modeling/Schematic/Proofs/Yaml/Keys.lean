import Schematic.Proofs.Yaml.Marks

/-!
# Reading simple keys

A simple key stands in front of its colon on one line. It is known for a key only at the colon, and
a reader that is more than 1024 characters past its start does not know it any more. Since a code
point takes up to ten characters between double quotes, there are simple keys that are too wide for
the reader.
-/

namespace Schematic.Yaml

namespace TokenReader

open Source

variable {m : Mark} {t name : Text} {words : List Token} {indent : Int} {outers : List Int}
  {i : Nat}

/-- A colon goes on with no marker of a document. -/
lemma peek_colon_ne (t : Text) :
    ∀ c ∈ ['-', '.'], ∀ m, (ofText m (.char ':' :: t)).peek ≠ some c := by
  intro c hc m
  change some ':' ≠ some c
  rintro ⟨⟩
  revert hc
  decide

/-- A simple key starts a line. -/
lemma startsLine_simpleKey (i : Nat) (name t : Text) :
    StartsLine (simpleKey i name ++ .char ':' :: t) := by
  cases hstyle : ScalarStyle.of name with
  | plain =>
    obtain ⟨htext, hstart, -⟩ := isPlainText_of_style hstyle
    rw [simpleKey, scalar, hstyle]
    exact startsLine_plain htext hstart (peek_colon_ne t)
  | singleQuoted =>
    rw [simpleKey, scalar, hstyle]
    exact startsLine_quote (c := '\'') (.inr rfl)
  | doubleQuoted =>
    rw [simpleKey, scalar, hstyle]
    exact startsLine_quote (c := '"') (.inl rfl)

/-- A key without quotes is taken as a word. -/
lemma word_plainKey (words : List Token) (outers : List Int) (hstyle : ScalarStyle.of name = .plain)
    (ht : ∀ m, (ofText m t).atBlank = true) (hm : indent ≤ m.column) (hi : indent ≤ i) :
    ∃ c u, simpleKey i name = .char c :: u ∧ StartsLine (simpleKey i name ++ .char ':' :: t) ∧
      Tag.ofPlain name = .text ∧
      (inBlock m (simpleKey i name ++ .char ':' :: t) words indent outers true).word c
        (ofText (m.next c) (u ++ .char ':' :: t))
          = .ok (afterScalar m (m.after (simpleKey i name)) (.char ':' :: t) name true
              (m.after (simpleKey i name)) words indent outers true false) := by
  have hscalar : simpleKey i name = foldWords asItStands false (i + 2) none i name := by
    rw [simpleKey, scalar, hstyle]
  obtain ⟨htext, hstart, htag⟩ := isPlainText_of_style hstyle
  have hrest := peek_colon_ne t
  have hread := plainScalar_inBlock (m := m) false i words outers true (endsPlain_colon ht)
    (Nat.succ_pos (i + 1)) (by omega) htext hm
  have hline : StartsLine (foldWords asItStands false (i + 2) none i name ++ .char ':' :: t) :=
    startsLine_plain htext hstart hrest
  obtain ⟨c, u, hcu, -⟩ := id htext.startsWord
  rw [hscalar]
  -- The name stands on one line, so it is not folded.
  have hfold : foldWords asItStands false (i + 2) none i name = name :=
    foldWords_eq_self htext.isLine none i
  have hcons : foldWords asItStands false (i + 2) none i name ++ .char ':' :: t
      = .char c :: (u ++ .char ':' :: t) := by rw [hfold, hcu, List.cons_append]
  have hword := word_plain words indent outers true htext hstart hrest m hcons
  rw [← hcons] at hword
  rw [hfold] at hword hread hline ⊢
  exact ⟨c, u, hcu, hline, htag, hword.trans hread⟩

/-- The reader in front of a simple key and its colon. -/
lemma word_simpleKey (words : List Token) (outers : List Int) (hname : isSimpleKey name = true)
    (ht : ∀ m, (ofText m t).atBlank = true) (hm : indent ≤ m.column) (hi : indent ≤ i) :
    ∃ c u isPlain stop, simpleKey i name = .char c :: u ∧
      StartsLine (simpleKey i name ++ .char ':' :: t) ∧
      (isPlain = true → Tag.ofPlain name = .text) ∧
      (inBlock m (simpleKey i name ++ .char ':' :: t) words indent outers true).word c
        (ofText (m.next c) (u ++ .char ':' :: t))
          = .ok (afterScalar m (m.after (simpleKey i name)) (.char ':' :: t) name isPlain stop words
              indent outers true false) := by
  -- Each style starts by a character of its own, and that decides on the reader.
  cases hstyle : ScalarStyle.of name with
  | plain =>
    obtain ⟨c, u, hcu, hline, htag, hword⟩ := word_plainKey words outers hstyle ht hm hi
    exact ⟨c, u, true, _, hcu, hline, fun _ => htag, hword⟩
  | singleQuoted =>
    obtain ⟨⟨u, hu⟩, hread⟩ := quotedScalar_single false i m hstyle
      (Nat.succ_pos (i + 1)) ⟨':', t, rfl, by decide⟩
    rw [seenText_false, ← simpleKey] at hread
    rw [← simpleKey] at hu
    rw [hu] at hread ⊢
    exact ⟨'\'', u, false, _, rfl, startsLine_quote (.inr rfl), by simp,
      word_single.trans (keyWord_quoted words indent outers true rfl hread)⟩
  | doubleQuoted =>
    obtain ⟨⟨u, hu⟩, hread⟩ := quotedScalar_double false m
      (.char ':' :: t) hstyle Nat.one_pos (Nat.le_refl 1)
    rw [scalar_false_eq hname 1 1 (i + 2) i, ← simpleKey] at hu hread
    rw [seenText_false] at hread
    rw [hu] at hread ⊢
    exact ⟨'"', u, false, _, rfl, startsLine_quote (.inl rfl), by simp,
      word_double.trans (keyWord_quoted words indent outers true rfl hread)⟩

/-- The reader at the colon after a simple key. -/
lemma word_colon {cs : List (Nat × Candidate)} (ht : ∀ m, (ofText m t).atBlank = true) :
    ((inBlock m (.char ':' :: t) words indent outers false).withCandidates cs).word ':'
      (ofText (m.next ':') t)
        = ((inBlock m (.char ':' :: t) words indent outers false).withCandidates cs).value := by
  simp [word, inBlock, withCandidates, atTriple, peek, ht]

lemma startsLine_colon : StartsLine (.char ':' :: t) :=
  ⟨⟨':', t, rfl, by decide, by decide⟩, by simp, fun _ => rfl⟩

/-- No block ends at a column within all of them. -/
lemma unwind_of_le {r : TokenReader} {column : Int} (h : r.indent ≤ column) :
    r.unwind column = r := by
  unfold unwind
  split
  · rfl
  · cases houters : r.outerIndents with
    | nil => rw [closeBlocks, ← houters]
    | cons outer outers => rw [closeBlocks, if_neg (Int.not_lt.mpr h), ← houters]

/-- The only candidate of a reader, with the place where it starts. -/
def keyCandidate (m : Mark) (words : List Token) (indent : Int) : Candidate :=
  ⟨words.length, indent == m.column, m⟩

lemma isStale_key {r : TokenReader} {key : Text} (hkey : IsLine key) (hr : r.mark = m.after key)
    (words : List Token) (indent : Int) :
    r.isStale (keyCandidate m words indent) = decide (1024 < key.length) := by
  rw [isStale, hr, Mark.after_of_isLine hkey]
  simp [keyCandidate]

/-- A colon right after a simple key that is not too wide. -/
lemma valueOf_keyCandidate {m' : Mark} {scalar : Token} (hm : indent ≤ m.column) :
    ((inBlock m' (.char ':' :: t) (scalar :: words) indent outers false).withCandidates
      [(0, keyCandidate m words indent)]).valueOf (keyCandidate m words indent)
        = inBlock (m'.next ':') t (⟨.value, m', (ofText (m'.next ':') t).mark⟩ :: scalar ::
            ⟨.key, m, m⟩ :: (opening .blockMappingStart m indent ++ words)) m.column
            (outersAt m indent outers) false := by
  have hfirst : words.length + 1 - words.length = 1 := by omega
  have hsecond : words.length + 1 + 1 - words.length = 2 := by omega
  by_cases h : indent < m.column
  · simp [valueOf, insert, TokenReader.take, push, indentTo, opensBlock, inFlow, opening, outersAt,
      h, keyCandidate, withCandidates, inBlock, hfirst, hsecond, TokenReader.mark, Source.mark,
      Source.drop, Source.tail]
  · have heq : indent = m.column := Int.le_antisymm hm (Int.not_lt.mp h)
    simp [valueOf, insert, TokenReader.take, push, opensBlock, inFlow, opening, outersAt, heq,
      keyCandidate, withCandidates, inBlock, hfirst, TokenReader.mark, Source.mark, Source.drop,
      Source.tail]

/-- The first step at a simple key: its candidate is kept unless the key is too wide. -/
lemma step_simpleKey (words : List Token) (outers : List Int) (hname : isSimpleKey name = true)
    (ht : ∀ m, (ofText m t).atBlank = true) (hm : indent ≤ m.column) (hi : indent ≤ i) :
    ∃ isPlain stop, (isPlain = true → Tag.ofPlain name = .text) ∧ 0 < (simpleKey i name).length ∧
      (inBlock m (simpleKey i name ++ .char ':' :: t) words indent outers true).step
        = ((inBlock (m.after (simpleKey i name)) (.char ':' :: t)
            (⟨.scalar name isPlain, m, stop⟩ :: words) indent outers false).withCandidates
            [(0, keyCandidate m words indent)]).dropStale >>= fun r => .ok (some r) := by
  obtain ⟨c, u, isPlain, stop, hcu, hline, htag, hword⟩ :=
    word_simpleKey words outers hname ht hm hi
  refine ⟨isPlain, stop, htag, by simp [hcu], ?_⟩
  rw [hcu] at hline hword ⊢
  rw [List.cons_append] at hline hword ⊢
  rw [step_inBlock hline hm, hword]
  rfl

/-- A key in one line leaves less to be read. -/
lemma length_source_simpleKey (hname : isSimpleKey name = true)
    (h : 0 < (simpleKey i name).length) :
    (ofText (m.after (simpleKey i name)) (.char ':' :: t)).length
      < (ofText m (simpleKey i name ++ .char ':' :: t)).length := by
  rw [length_ofText_append (isLine_simpleKey i hname).isPage]
  omega

/-- The step at the colon after a simple key. -/
lemma step_colon (words : List Token) (outers : List Int) (cs : List (Nat × Candidate))
    (ht : ∀ m, (ofText m t).atBlank = true)
    (hm : indent ≤ m.column)
    (hcs : ((inBlock m (.char ':' :: t) words indent outers false).withCandidates cs).dropStale
      = .ok ((inBlock m (.char ':' :: t) words indent outers false).withCandidates cs)) :
    ((inBlock m (.char ':' :: t) words indent outers false).withCandidates cs).step
      = ((inBlock m (.char ':' :: t) words indent outers false).withCandidates cs).value >>=
          fun r => r.dropStale >>= fun r => .ok (some r) := by
  let r := (inBlock m (.char ':' :: t) words indent outers false).withCandidates cs
  have hblanks : r.skipBlanks = r := by
    have hsource : r.source = ofText m (.char ':' :: t) := rfl
    rw [skipBlanks, hsource, nextWord_line (.inl startsLine_colon)]
    rfl
  have hplace : r.mark = m := rfl
  have hunwind : r.unwind m.column = r := unwind_of_le hm
  rw [step, hblanks, hcs, ok_bind, hplace, hunwind, ← word_colon ht]
  rfl

/-- A simple key and its colon. -/
theorem Runs.simpleKey (words : List Token) (outers : List Int) (hname : isSimpleKey name = true)
    (hwidth : keyWidth name ≤ 1024) (ht : ∀ m, (ofText m t).atBlank = true) (hm : indent ≤ m.column)
    (hi : indent ≤ i) :
    ∃ isPlain stop stop', (isPlain = true → Tag.ofPlain name = .text) ∧
      Runs (inBlock m (simpleKey i name ++ .char ':' :: t) words indent outers true)
        (inBlock ((m.after (simpleKey i name)).next ':') t
          (⟨.value, m.after (simpleKey i name), stop'⟩ :: ⟨.scalar name isPlain, m, stop⟩ ::
            ⟨.key, m, m⟩ :: (opening .blockMappingStart m indent ++ words)) m.column
              (outersAt m indent outers) false) := by
  obtain ⟨isPlain, stop, htag, hpos, hstep⟩ := step_simpleKey words outers hname ht hm hi
  have hline := isLine_simpleKey i hname
  let m' := m.after (Yaml.simpleKey i name)
  let r := (inBlock m' (.char ':' :: t) (⟨.scalar name isPlain, m, stop⟩ :: words) indent outers
    false).withCandidates [(0, keyCandidate m words indent)]
  have hstale : r.isStale (keyCandidate m words indent) = false := by
    -- The key is in one line and not too wide, so it can still be one at the colon.
    rw [isStale_key hline rfl, decide_eq_false_iff_not, length_simpleKey hname]
    exact Nat.not_lt.mpr hwidth
  have hdrop : r.dropStale = .ok r := by
    have hcandidates : r.candidates = [(0, keyCandidate m words indent)] := rfl
    simp only [dropStale, hcandidates, List.find?_cons, hstale, Bool.false_and, List.find?_nil,
      List.filter_cons, Bool.not_false, if_true, List.filter_nil]
    rfl
  have hcolumn : indent ≤ m'.column := by
    rw [Mark.column_after_of_isLine hline]
    omega
  have hvalue : r.value = .ok (r.valueOf (keyCandidate m words indent)) := rfl
  rw [valueOf_keyCandidate hm] at hvalue
  -- The colon makes a key of the scalar and opens the mapping.
  have hnext : r.step = .ok (some (inBlock (m'.next ':') t
      (⟨.value, m', (ofText (m'.next ':') t).mark⟩ :: ⟨.scalar name isPlain, m, stop⟩ ::
        ⟨.key, m, m⟩ :: (opening .blockMappingStart m indent ++ words))
      m.column (outersAt m indent outers) false)) := by
    rw [step_colon _ _ _ ht hcolumn hdrop, hvalue]
    rfl
  have hfirst :
      Runs (inBlock m (Yaml.simpleKey i name ++ .char ':' :: t) words indent outers true) r :=
    Runs.of_step (hstep.trans (by rw [hdrop]; rfl)) (length_source_simpleKey hname hpos)
  exact ⟨isPlain, stop, _, htag, hfirst.trans (Runs.of_step hnext (Nat.lt_succ_self _))⟩

/-- A simple key that is too wide cannot be read. -/
theorem Fails.simpleKey (words : List Token) (outers : List Int) (hname : isSimpleKey name = true)
    (hwidth : 1024 < keyWidth name) (ht : ∀ m, (ofText m t).atBlank = true) (hm : indent ≤ m.column)
    (hi : indent ≤ i) :
    Fails (inBlock m (simpleKey i name ++ .char ':' :: t) words indent outers true) := by
  obtain ⟨isPlain, stop, -, hpos, hstep⟩ := step_simpleKey words outers hname ht hm hi
  have hline := isLine_simpleKey i hname
  let m' := m.after (Yaml.simpleKey i name)
  let r := (inBlock m' (.char ':' :: t) (⟨.scalar name isPlain, m, stop⟩ :: words) indent outers
    false).withCandidates [(0, keyCandidate m words indent)]
  have hstale : r.isStale (keyCandidate m words indent) = true := by
    rw [isStale_key hline rfl, decide_eq_true_iff, length_simpleKey hname]
    exact hwidth
  have hcolumn : indent ≤ m'.column := by
    rw [Mark.column_after_of_isLine hline]
    omega
  have hcandidates : r.candidates = [(0, keyCandidate m words indent)] := rfl
  by_cases hrequired : (keyCandidate m words indent).required = true
  · -- the key has to be one, and is refused at once
    have hdrop : r.dropStale = r.noColon (keyCandidate m words indent) := by
      simp only [dropStale, hcandidates, List.find?_cons, hstale, hrequired, Bool.true_and]
    exact Fails.of_step (hstep.trans (by rw [hdrop]; rfl))
  · -- the key is given up, and then its colon is refused
    have hdrop : r.dropStale = .ok (inBlock m' (.char ':' :: t)
        (⟨.scalar name isPlain, m, stop⟩ :: words) indent outers false) := by
      simp only [dropStale, hcandidates, List.find?_cons, hstale, hrequired, Bool.and_false,
        List.find?_nil, List.filter_cons, Bool.not_true, List.filter_nil]
      rfl
    have hcolon := step_colon (⟨.scalar name isPlain, m, stop⟩ :: words) outers [] ht hcolumn
      rfl
    exact Runs.fails (Runs.of_step (hstep.trans (by rw [hdrop]; rfl))
      (length_source_simpleKey hname hpos)) (Fails.of_step hcolon)

end TokenReader

end Schematic.Yaml
