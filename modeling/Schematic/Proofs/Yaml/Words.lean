import Schematic.Proofs.Yaml.Quoted
import Schematic.Proofs.Yaml.Run

/-!
# Reading the words of a written document

What a reader in a block makes of the marks and the scalars that the writer puts on a line.
-/

namespace Schematic.Yaml.TokenReader

open Source

variable {m : Mark} {t rest : Text} {words : List Token} {indent : Int} {outers : List Int}
  {keyAllowed : Bool}

/-! ### Blanks -/

lemma Runs.blank : Runs (inBlock m (.char ' ' :: t) words indent outers keyAllowed)
    (inBlock (m.next ' ') t words indent outers keyAllowed) :=
  Runs.of_dropStale (Nat.le_succ _) rfl

/-- A reader in a block at which words may turn out to be keys. -/
def withCandidates (r : TokenReader) (cs : List (Nat × Candidate)) : TokenReader :=
  { r with candidates := cs }

def AreOptional (cs : List (Nat × Candidate)) : Prop := ∀ c ∈ cs, c.2.required = false

lemma dropStale_withCandidates {r : TokenReader} {cs : List (Nat × Candidate)}
    (h : AreOptional cs) : (r.withCandidates cs).dropStale
      = .ok (r.withCandidates (cs.filter fun c => !r.isStale c.2)) := by
  have hfind : (cs.find? fun c => (r.withCandidates cs).isStale c.2 && c.2.required) = none := by
    rw [List.find?_eq_none]
    intro c hc
    simp [h c hc]
  rw [dropStale]
  simp only [withCandidates] at hfind ⊢
  rw [hfind]
  rfl

/-- Candidates of earlier lines are given up. -/
lemma Runs.dropOld {cs : List (Nat × Candidate)} (h : StartsLine t ∨ t = []) (hcs : AreOptional cs)
    (hline : ∀ c ∈ cs, c.2.mark.line < (ofText m t).mark.line) :
    Runs ((inBlock m t words indent outers keyAllowed).withCandidates cs)
      (inBlock m t words indent outers keyAllowed) := by
  refine Runs.of_dropStale (Nat.le_refl _) ?_
  have hskip : ((inBlock m t words indent outers keyAllowed).withCandidates cs).skipBlanks
      = (inBlock m t words indent outers keyAllowed).skipBlanks.withCandidates cs := rfl
  have hstale : (cs.filter fun c => !(inBlock m t words indent outers keyAllowed).isStale c.2)
      = [] := by
    rw [List.filter_eq_nil_iff]
    intro c hc
    have hne : c.2.mark.line ≠ (ofText m t).mark.line := Nat.ne_of_lt (hline c hc)
    simp [isStale, inBlock, TokenReader.mark, hne]
  rw [hskip, skipBlanks_inBlock h, dropStale_withCandidates hcs, hstale]
  rfl

lemma nextWord_newLine {n : Nat} (h : FollowsLine n t) (m : Mark) :
    nextWord false false (ofText m (newLine n ++ t)) = (true, ofText (m.after (newLine n)) t) := by
  have hspaces (n : Nat) (m : Mark) (h : StartsLine t) :
      nextWord false true (ofText m (Text.spaces n ++ t))
        = (true, ofText (m.after (Text.spaces n)) t) := by
    induction n generalizing m with
    | zero => exact nextWord_line (.inl h) true m
    | succ n ih => exact ih (m.next ' ')
  rcases h with h | ⟨rfl, rfl⟩
  · exact hspaces n (m.next '\n') h
  · rfl

/-- The end of a line: what comes next may be a key. -/
lemma Runs.lineEnd {cs : List (Nat × Candidate)} {n : Nat} (h : FollowsLine n t)
    (hcs : AreOptional cs) (hline : ∀ c ∈ cs, c.2.mark.line ≤ m.line) :
    Runs ((inBlock m (newLine n ++ t) words indent outers keyAllowed).withCandidates cs)
      (inBlock (m.after (newLine n)) t words indent outers true) := by
  have hmark : (ofText (m.after (newLine n)) t).mark.line = m.line + 1 := by
    rw [h.mark_eq, Mark.after_newLine]
  have hold : Runs ((inBlock (m.after (newLine n)) t words indent outers true).withCandidates cs)
      (inBlock (m.after (newLine n)) t words indent outers true) :=
    Runs.dropOld (h.imp_right And.right) hcs fun c hc => by
      rw [hmark]
      exact Nat.lt_succ_of_le (hline c hc)
  -- What may turn out to be a key is dropped with the line that it stands on.
  refine Runs.trans (Runs.of_dropStale ?_ (congrArg dropStale ?_)) hold
  · have hlength := length_ofText_append (m := m) (u := t) (isPage_newLine n)
    change (ofText (m.after (newLine n)) t).length ≤ (ofText m (newLine n ++ t)).length
    omega
  · have hleft : ((inBlock m (newLine n ++ t) words indent outers keyAllowed).withCandidates
        cs).skipBlanks
          = (inBlock (m.after (newLine n)) t words indent outers true).withCandidates cs := by
      have hsource : ((inBlock m (newLine n ++ t) words indent outers keyAllowed).withCandidates
          cs).source = ofText m (newLine n ++ t) := rfl
      rw [skipBlanks, hsource, nextWord_newLine h]
      simp [withCandidates, inBlock, inFlow]
    have hright : ((inBlock (m.after (newLine n)) t words indent outers true).withCandidates
        cs).skipBlanks = (inBlock (m.after (newLine n)) t words indent outers
          true).skipBlanks.withCandidates cs := rfl
    rw [hleft, hright, skipBlanks_inBlock (h.imp_right And.right)]

lemma Runs.lineBreak {n : Nat} (h : FollowsLine n t) :
    Runs (inBlock m (newLine n ++ t) words indent outers keyAllowed)
      (inBlock (m.after (newLine n)) t words indent outers true) :=
  Runs.lineEnd h (fun _ hc => absurd hc List.not_mem_nil) fun _ hc => absurd hc List.not_mem_nil

/-! ### Scalars -/

/-- The candidate for a key that a reader remembers at the start of a word. -/
def candidate (m : Mark) (count : Nat) (indent : Int) (keyAllowed : Bool) :
    List (Nat × Candidate) :=
  if keyAllowed then [(0, ⟨count, indent == m.column, m⟩)] else []

lemma addCandidate_inBlock (hmark : (ofText m t).mark = m) :
    (inBlock m t words indent outers keyAllowed).addCandidate
      = .ok ((inBlock m t words indent outers keyAllowed).withCandidates
          (candidate m words.length indent keyAllowed)) := by
  cases keyAllowed with
  | false => rfl
  | true =>
    have hplace : (inBlock m t words indent outers true).mark = m := hmark
    rw [addCandidate, hplace]
    change Except.ok ((inBlock m t words indent outers true).withCandidates
      [(0, ⟨words.length, _, (inBlock m t words indent outers true).mark⟩)]) = _
    rw [hplace]
    rfl

/-- A scalar that is put out in front of a rest. -/
def afterScalar (m m' : Mark) (rest : Text) (content : Text) (isPlain : Bool) (stop : Mark)
    (words : List Token) (indent : Int) (outers : List Int) (keyAllowed broken : Bool) :
    TokenReader :=
  (inBlock m' rest (⟨.scalar content isPlain, m, stop⟩ :: words) indent outers
    broken).withCandidates (candidate m words.length indent keyAllowed)

/-- A quoted scalar leaves a candidate behind. -/
lemma keyWord_quoted {double : Bool} {content : Text} {m' : Mark} (words : List Token)
    (indent : Int) (outers : List Int) (keyAllowed : Bool) (hmark : (ofText m t).mark = m)
    (h : quotedScalar double (ofText m t) = .ok (content, ofText m' rest)) :
    (inBlock m t words indent outers keyAllowed).keyWord (quotedWord double)
      = .ok (afterScalar m m' rest content false (ofText m' rest).mark words indent outers
          keyAllowed false) := by
  have hplace : ((inBlock m t words indent outers keyAllowed).withCandidates
      (candidate m words.length indent keyAllowed)).mark = m := hmark
  have hread : quotedWord double ((inBlock m t words indent outers keyAllowed).withCandidates
      (candidate m words.length indent keyAllowed)).source
        = .ok (.scalar content false, ofText m' rest) := by
    rw [quotedWord]
    exact congrArg (· >>= fun x => Except.ok (Word.scalar x.1 false, x.2)) h
  rw [keyWord, addCandidate_inBlock hmark, ok_bind, hread, ok_bind, hplace]
  rfl

lemma word_double {rest' : Source} :
    (inBlock m (.char '"' :: t) words indent outers keyAllowed).word '"' rest'
      = (inBlock m (.char '"' :: t) words indent outers keyAllowed).keyWord (quotedWord true) := by
  simp [word, inFlow, inBlock, atTriple, peek]

lemma word_single {rest' : Source} : (inBlock m (.char '\'' :: t) words indent outers
    keyAllowed).word '\'' rest' = (inBlock m (.char '\'' :: t) words indent outers
      keyAllowed).keyWord (quotedWord false) := by
  simp [word, inFlow, inBlock, atTriple, peek]

lemma head?_of_peek_foldWords {c : Char} {split : Bool} {ind column : Nat} (hc : ' ' < c)
    (ht : IsLine t) (hrest : ∀ m, (ofText m rest).peek ≠ some c) (before : Option CodePoint)
    (h : (ofText m (foldWords asItStands split ind before column t ++ rest)).peek = some c) :
    ∃ u, t = .char c :: u := by
  cases t with
  | nil => exact absurd h (hrest m)
  | cons d t =>
    obtain ⟨e, rfl, hlow, hhigh⟩ := exists_char_of_within (isLine_cons.mp ht).1
    by_cases he : e = ' '
    · subst he
      have hspace : c ≠ ' ' := ne_space_of_lt hc
      have hline : c ≠ '\n' := by
        rintro rfl
        exact absurd hc (by decide)
      rw [foldWords, if_neg (by decide)] at h
      split at h
      · exact absurd (Option.some.inj h) (Ne.symm hline)
      · exact absurd (Option.some.inj h) (Ne.symm hspace)
    · have hlt : ' ' < e := Char.not_le.mp fun h => he (Char.le_antisymm h hlow)
      rw [foldWords_word hlt] at h
      exact ⟨t, by rw [Option.some.inj h]⟩

/-- The marker of a document stands in front of a text only if it is what the text starts with. -/
lemma atTriple_foldWords {c : Char} {split : Bool} {ind column : Nat} (hc : ' ' < c)
    (ht : IsLine t) (hstart : t.startsWith [.char c, .char c, .char c] = false)
    (hrest : ∀ m, (ofText m rest).peek ≠ some c) (before : Option CodePoint) :
    (ofText m (foldWords asItStands split ind before column t ++ rest)).atTriple c = false := by
  by_contra htriple
  rw [Bool.not_eq_false, atTriple, Bool.and_eq_true, Bool.and_eq_true, Bool.and_eq_true,
    beq_iff_eq, beq_iff_eq, beq_iff_eq] at htriple
  obtain ⟨⟨⟨hfirst, hsecond⟩, hthird⟩, -⟩ := htriple
  obtain ⟨t, rfl⟩ := head?_of_peek_foldWords hc ht hrest before hfirst
  have ht := (isLine_cons.mp ht).2
  rw [foldWords_word hc] at hsecond hthird
  obtain ⟨t, rfl⟩ := head?_of_peek_foldWords hc ht hrest _ hsecond
  have ht := (isLine_cons.mp ht).2
  rw [foldWords_word hc] at hthird
  obtain ⟨t, rfl⟩ := head?_of_peek_foldWords hc ht hrest _ hthird
  simp [Text.startsWith] at hstart

/-- What a plain text does not start with. -/
lemma not_indicator {c : Char} (h : startsWithIndicator (.char c :: t) = false) :
    (∀ d ∈ ['#', ',', '[', ']', '\x7b', '\x7d', '&', '*', '!', '|', '>', '\'', '"', '%', '@',
        '\x60'], c ≠ d) ∧
      (c = '?' ∨ c = ':' ∨ c = '-' → gapAhead t = false) ∧
      Text.startsWith (.char c :: t) [.char '-', .char '-', .char '-'] = false ∧
      Text.startsWith (.char c :: t) [.char '.', .char '.', .char '.'] = false := by
  rw [startsWithIndicator, Bool.or_eq_false_iff, Bool.or_eq_false_iff, Bool.or_eq_false_iff] at h
  obtain ⟨⟨hdashes, hdots⟩, hfirst, hgap⟩ := h
  refine ⟨?_, ?_, hdashes, hdots⟩
  · simpa [CodePoint.isOneOf] using hfirst
  · intro hc
    have hone : (CodePoint.char c).isOneOf "?:-" = true := by
      rcases hc with rfl | rfl | rfl <;> decide
    simpa [hone] using hgap

lemma word_eq_plainScalar {r : TokenReader} {c : Char} {next : Source} (hc : ' ' < c ∧ c ≤ '~')
    (hne : ∀ d ∈ ['#', ',', '[', ']', '\x7b', '\x7d', '&', '*', '!', '|', '>', '\'', '"', '%', '@',
      '\x60'], c ≠ d) (hblank : c = '?' ∨ c = ':' ∨ c = '-' → next.atBlank = false)
    (hdash : r.source.atTriple '-' = false) (hdot : r.source.atTriple '.' = false)
    (hflow : r.inFlow = false) : r.word c next = r.plainScalar := by
  have hspace := not_isSpaceOrTab_of_printable hc.1
  have hbreak := not_isBreak_of_printable (Char.not_lt.mp (Char.lt_asymm hc.1)) hc.2
  have hplain : startsPlain false c next = true := by
    have hlist : ",[]\x7b\x7d#&*!|>'\"%@`".toList.contains c = false := by
      -- The indicators are those that the character differs from.
      rw [List.contains_eq_mem, decide_eq_false_iff_not]
      intro hmem
      have hsub : ∀ d ∈ ",[]\x7b\x7d#&*!|>'\"%@`".toList, d ∈ ['#', ',', '[', ']', '\x7b', '\x7d',
          '&', '*', '!', '|', '>', '\'', '"', '%', '@', '\x60'] :=
        forall_mem_of_all (by decide +kernel)
      exact hne c (hsub c hmem) rfl
    rw [startsPlain, hspace, hbreak, hlist]
    -- A question mark, a colon and a dash depend on what comes next.
    by_cases hmark : c = '?' ∨ c = ':' ∨ c = '-'
    · simp [hblank hmark]
    · simp only [not_or] at hmark
      simp [hmark]
  have hmarks (d : Char) (hd : d = '?' ∨ d = ':' ∨ d = '-') : ¬ (c = d ∧ next.atBlank = true) := by
    rintro ⟨rfl, h⟩
    rw [hblank hd] at h
    exact absurd h (by decide)
  simp only [List.forall_mem_cons, List.not_mem_nil, false_implies, implies_true, and_true] at hne
  simp only [word, hdash, hdot, hflow, Bool.false_or, hne, hplain, false_and, and_false,
    hmarks '-' (by simp), hmarks '?' (by simp), hmarks ':' (by simp), if_false, if_true,
    Bool.false_eq_true]

/-- A plain scalar starts here. -/
lemma word_plain {c : Char} {u : Text} {split : Bool} {ind column : Nat} (words : List Token)
    (indent : Int) (outers : List Int) (keyAllowed : Bool) (ht : IsPlainText t)
    (hstart : startsWithIndicator t = false)
    (hrest : ∀ c ∈ ['-', '.'], ∀ m, (ofText m rest).peek ≠ some c) (m : Mark)
    (hcons : foldWords asItStands split ind none column t ++ rest = .char c :: u) :
    (inBlock m (.char c :: u) words indent outers keyAllowed).word c (ofText (m.next c) u)
      = (inBlock m (.char c :: u) words indent outers keyAllowed).plainScalar := by
  obtain ⟨c', t, rfl, hlow, hhigh⟩ := ht.startsWord
  obtain ⟨hne, hgap, hdashes, hdots⟩ := not_indicator hstart
  have hfold := hcons
  rw [foldWords_word hlow, List.cons_append, List.cons.injEq, CodePoint.char.injEq] at hfold
  obtain ⟨rfl, rfl⟩ := hfold
  have hdash : (ofText m (foldWords asItStands split ind none column (.char c' :: t) ++
      rest)).atTriple '-' = false :=
    atTriple_foldWords (by decide) ht.isLine hdashes (hrest '-' (by decide)) none
  have hdot : (ofText m (foldWords asItStands split ind none column (.char c' :: t) ++
      rest)).atTriple '.' = false :=
    atTriple_foldWords (by decide) ht.isLine hdots (hrest '.' (by decide)) none
  rw [hcons] at hdash hdot
  -- Only a first character that may be an indicator needs a second one, which is no blank.
  refine word_eq_plainScalar ⟨hlow, hhigh⟩ hne (fun hc => ?_) hdash hdot rfl
  have hgap := hgap hc
  cases t with
  | nil => simp [gapAhead] at hgap
  | cons d t =>
    have hd : d ≠ .char ' ' := by
      rintro rfl
      simp [gapAhead, isGap, CodePoint.isOneOf] at hgap
    obtain ⟨e, w, hew, he⟩ := startsWord_of_ne (isLine_cons.mp ht.isLine).2 hd
    rw [hew, foldWords_word he.1]
    exact atBlank_char he

variable {next blanks : Text} {broken split : Bool} {ind column : Nat}

/-- A plain scalar leaves a candidate behind. -/
lemma plainScalar_inBlock (split : Bool) (column : Nat) (words : List Token) (outers : List Int)
    (keyAllowed : Bool) (hends : EndsPlain (indent + 1) rest blanks next broken) (hind : 0 < ind)
    (hindent : indent + 1 ≤ ind) (ht : IsPlainText t) (hm : indent ≤ m.column) :
    (inBlock m (foldWords asItStands split ind none column t ++ rest) words indent outers
      keyAllowed).plainScalar
        = .ok (afterScalar m ((m.after (foldWords asItStands split ind none column t)).after blanks)
            next t true (m.after (foldWords asItStands split ind none column t)) words indent outers
              keyAllowed broken) := by
  have hmark : (ofText m (foldWords asItStands split ind none column t ++ rest)).mark = m := by
    have hword : StartsWord (foldWords asItStands split ind none column t ++ rest) :=
      startsWord_foldWords ht.startsWord none column
    obtain ⟨c, u, hcu, -⟩ := hword
    rw [hcu]
    rfl
  obtain ⟨cs, rfl, hread⟩ := plainScalar_foldWords split hends hind hindent ht column m (by omega)
  let r := (inBlock m (foldWords asItStands split ind none column (Text.ofChars cs) ++ rest)
    words indent outers keyAllowed).withCandidates (candidate m words.length indent keyAllowed)
  have hfound : Yaml.plainScalar r.inFlow (r.indent + 1) r.source = _ := hread
  have hplace : r.mark = m := hmark
  rw [plainScalar, addCandidate_inBlock hmark, ok_bind, hplace, hfound]
  rfl

/-- A plain text starts a line. -/
lemma startsLine_plain (ht : IsPlainText t) (hstart : startsWithIndicator t = false)
    (hrest : ∀ c ∈ ['-', '.'], ∀ m, (ofText m rest).peek ≠ some c) :
    StartsLine (foldWords asItStands split ind none column t ++ rest) := by
  obtain ⟨c, t, rfl, hlow, hhigh⟩ := ht.startsWord
  obtain ⟨hne, hgap, hdashes, hdots⟩ := not_indicator hstart
  refine ⟨startsWord_foldWords ⟨c, t, rfl, hlow, hhigh⟩ none column, ?_, fun m => ?_⟩
  · rw [foldWords_word hlow]
    simpa using hne '#' (by decide)
  · rw [atDocumentMarker, atTriple_foldWords (by decide) ht.isLine hdashes (hrest '-' (by decide)),
      atTriple_foldWords (by decide) ht.isLine hdots (hrest '.' (by decide))]
    rfl

lemma startsLine_quote {c : Char} (hc : c = '"' ∨ c = '\'') : StartsLine (.char c :: t) := by
  rcases hc with rfl | rfl
  · exact ⟨⟨'"', t, rfl, by decide, by decide⟩, by simp, fun _ => rfl⟩
  · exact ⟨⟨'\'', t, rfl, by decide, by decide⟩, by simp, fun _ => rfl⟩

lemma eq_of_mem_candidate {count : Nat} {c : Nat × Candidate}
    (h : c ∈ candidate m count indent keyAllowed) : c.1 = 0 ∧ c.2.mark = m := by
  unfold candidate at h
  split at h
  · rw [List.mem_singleton.mp h]
    exact ⟨rfl, rfl⟩
  · simp at h

lemma areOptional_candidate (words : List Token) (h : keyAllowed = true → indent ≠ m.column) :
    AreOptional (candidate m words.length indent keyAllowed) := by
  intro c hc
  unfold candidate at hc
  split at hc
  case isTrue hkey =>
    rw [List.mem_singleton] at hc
    rw [hc]
    exact beq_eq_false_iff_ne.mpr (h hkey)
  case isFalse => simp at hc

/-- A step that puts out a scalar which need not be a key. -/
lemma step_afterScalar {c : Char} {m' stop : Mark} {content : Text} {isPlain : Bool}
    (hline : StartsLine (.char c :: t)) (hm : indent ≤ m.column)
    (hkey : keyAllowed = true → indent ≠ m.column)
    (hword : (inBlock m (.char c :: t) words indent outers keyAllowed).word c (ofText (m.next c) t)
      = .ok (afterScalar m m' rest content isPlain stop words indent outers keyAllowed broken)) :
    ∃ cs, AreOptional cs ∧ (∀ c ∈ cs, c.2.mark = m) ∧
      (inBlock m (.char c :: t) words indent outers keyAllowed).step
        = .ok (some ((inBlock m' rest (⟨.scalar content isPlain, m, stop⟩ :: words) indent outers
            broken).withCandidates cs)) := by
  have hoptional := areOptional_candidate words hkey
  refine ⟨(candidate m words.length indent keyAllowed).filter fun c => !(inBlock m' rest
    (⟨.scalar content isPlain, m, stop⟩ :: words) indent outers broken).isStale c.2,
    fun c hc => hoptional c (List.mem_of_mem_filter hc),
    fun c hc => (eq_of_mem_candidate (List.mem_of_mem_filter hc)).2, ?_⟩
  rw [step_inBlock hline hm, hword, ok_bind, afterScalar, dropStale_withCandidates hoptional]
  rfl

variable {n : Nat}

/-- A plain scalar at the end of a line. -/
theorem Runs.plain (words : List Token) (outers : List Int) (split : Bool) (column : Nat)
    (ht : IsPlainText t) (hstart : startsWithIndicator t = false) (hind : 0 < ind)
    (hindent : indent + 1 ≤ ind) (hm : indent ≤ m.column)
    (hkey : keyAllowed = true → indent ≠ m.column) (hn : (n : Int) ≤ indent)
    (hnext : FollowsLine n next) :
    ∃ stop, Runs (inBlock m (foldWords asItStands split ind none column t ++ (newLine n ++ next))
        words indent outers keyAllowed)
      (inBlock ((m.after (foldWords asItStands split ind none column t)).after (newLine n)) next
        (⟨.scalar t true, m, stop⟩ :: words) indent outers true) := by
  have hrest : ∀ c ∈ ['-', '.'], ∀ m, (ofText m (newLine n ++ next)).peek ≠ some c := by
    intro c hc m
    change some '\n' ≠ some c
    rintro ⟨⟩
    revert hc
    decide
  have hends : EndsPlain (indent + 1) (newLine n ++ next) (newLine n) next true :=
    endsPlain_newLine (by omega) hnext
  have hpage : IsPage (foldWords asItStands split ind none column t) :=
    isPage_foldWords_plain ht.isLine none column
  have hlength := length_ofText_append (m := m) (u := newLine n ++ next) hpage
  have hlength' :=
    length_ofText_append (m := m.after (foldWords asItStands split ind none column t)) (u := next)
      (isPage_newLine n)
  have hline : StartsLine (foldWords asItStands split ind none column t ++ (newLine n ++ next)) :=
    startsLine_plain ht hstart hrest
  obtain ⟨c, u, hcons, -⟩ := id hline.startsWord
  have hplain := plainScalar_inBlock split column words outers keyAllowed hends hind hindent ht hm
  have hword := word_plain words indent outers keyAllowed ht hstart hrest m hcons
  rw [hcons] at hplain hline hlength ⊢
  obtain ⟨cs, hoptional, hmarks, hstep⟩ := step_afterScalar hline hm hkey (hword.trans hplain)
  -- The scalar is followed by the end of the line, where nothing may be a key any more.
  refine ⟨_,
    (Runs.of_step hstep ?_).trans
      (Runs.dropOld (hnext.imp_right And.right) hoptional fun c hc => ?_)⟩
  · change (ofText _ next).length < (ofText m (.char c :: u)).length
    rw [hlength, hlength', newLine, List.length_cons]
    omega
  · rw [hmarks c hc, hnext.mark_eq, Mark.after_newLine]
    exact Nat.lt_succ_of_le (Mark.line_after_le hpage)

/-- A quoted scalar at the end of a line. -/
theorem Runs.quoted (double : Bool) {w content : Text} {c : Char} (hw : IsPage (.char c :: w))
    (hc : c = if double then '"' else '\'')
    (hread : quotedScalar double (ofText m (.char c :: w ++ (newLine n ++ next)))
      = .ok (content, ofText (m.after (.char c :: w)) (newLine n ++ next)))
    (hm : indent ≤ m.column) (hkey : keyAllowed = true → indent ≠ m.column)
    (hnext : FollowsLine n next) :
    ∃ stop, Runs (inBlock m (.char c :: w ++ (newLine n ++ next)) words indent outers keyAllowed)
      (inBlock ((m.after (.char c :: w)).after (newLine n)) next
        (⟨.scalar content false, m, stop⟩ :: words) indent outers true) := by
  have hlength := length_ofText_append (m := m) (u := newLine n ++ next) hw
  have hline : StartsLine (.char c :: (w ++ (newLine n ++ next))) :=
    startsLine_quote (by cases double <;> simp [hc])
  have hword :
      (inBlock m (.char c :: (w ++ (newLine n ++ next))) words indent outers keyAllowed).word c
          (ofText (m.next c) (w ++ (newLine n ++ next)))
        = (inBlock m (.char c :: (w ++ (newLine n ++ next))) words indent outers
            keyAllowed).keyWord (quotedWord double) := by
    -- Either quote starts a scalar of its kind.
    cases double with
    | true => subst hc; exact word_double
    | false => subst hc; exact word_single
  have hkeyWord := keyWord_quoted words indent outers keyAllowed rfl hread
  obtain ⟨cs, hoptional, hmarks, hstep⟩ := step_afterScalar hline hm hkey (hword.trans hkeyWord)
  refine ⟨_, (Runs.of_step hstep ?_).trans (Runs.lineEnd hnext hoptional fun d hd => ?_)⟩
  · change (ofText _ (newLine n ++ next)).length < (ofText m (.char c :: w ++ _)).length
    rw [hlength, List.length_cons]
    omega
  · rw [hmarks d hd]
    exact Mark.line_after_le hw

/-- A text at the end of a line. -/
theorem Runs.text (words : List Token) (outers : List Int) (split : Bool) {column : Nat} (t : Text)
    (hind : 0 < ind) (hindent : indent + 1 ≤ ind) (hcolumn : ind ≤ column) (hm : indent ≤ m.column)
    (hkey : keyAllowed = true → indent ≠ m.column) (hn : (n : Int) ≤ indent)
    (hnext : FollowsLine n next) :
    ∃ isPlain stop, (isPlain = true → Tag.ofPlain (seenText split ind t) = .text) ∧
      Runs
        (inBlock m (scalar split ind column t ++ (newLine n ++ next)) words indent outers
          keyAllowed)
        (inBlock ((m.after (scalar split ind column t)).after (newLine n)) next
          (⟨.scalar (seenText split ind t) isPlain, m, stop⟩ :: words) indent outers true) := by
  have hpage := isPage_scalar split ind column t
  -- Each style is read by its own reader.
  cases hstyle : ScalarStyle.of t with
  | plain =>
    have hscalar : scalar split ind column t = foldWords asItStands split ind none column t := by
      rw [scalar, hstyle]
    obtain ⟨ht, hstart, htag⟩ := isPlainText_of_style hstyle
    have hseen : seenText split ind t = t := by rw [seenText, hstyle]
    obtain ⟨stop, hruns⟩ := Runs.plain words outers split column ht hstart hind hindent hm hkey hn
      hnext
    exact ⟨true, stop, fun _ => by rw [hseen, htag], by rw [hscalar, hseen]; exact hruns⟩
  | singleQuoted =>
    obtain ⟨⟨u, hu⟩, hread⟩ := quotedScalar_single split column m hstyle hind
      ⟨'\n', Text.spaces n ++ next, rfl, by decide⟩
    rw [hu] at hread hpage ⊢
    obtain ⟨stop, hruns⟩ := Runs.quoted false hpage rfl hread hm hkey hnext
    exact ⟨false, stop, by simp, hruns⟩
  | doubleQuoted =>
    obtain ⟨⟨u, hu⟩, hread⟩ := quotedScalar_double split m (newLine n ++ next) hstyle hind hcolumn
    rw [hu] at hread hpage ⊢
    obtain ⟨stop, hruns⟩ := Runs.quoted true hpage rfl hread hm hkey hnext
    exact ⟨false, stop, by simp, hruns⟩

end Schematic.Yaml.TokenReader
