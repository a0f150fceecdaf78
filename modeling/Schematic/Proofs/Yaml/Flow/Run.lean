import Schematic.Proofs.Yaml.Flow.Plain
import Schematic.Proofs.Yaml.Flow.Quoted
import Schematic.Proofs.Yaml.Words

/-!
# Reading the words of flow collections

What a reader outside of all block collections makes of brackets, commas, names and values. It goes
from one word to the next, unless a tabulator stands between them.
-/

namespace Schematic.Yaml.TokenReader

open Source
open Json (Blanks Name isSpace quoted seenContent)

variable {r r' : TokenReader} {s s' : Source} {m : Mark} {b t rest : Text}
  {words words' : List Token} {depth depth' bound bound' : Nat} {cs cs' : List (Nat × Candidate)}
  {keyAllowed keyAllowed' : Bool} {c : Char}

/-! ### Readers outside of blocks -/

/-- A reader outside of all block collections, within a number of flow collections. -/
def nested (s : Source) (words : List Token) (depth : Nat) (cs : List (Nat × Candidate))
    (keyAllowed : Bool) : TokenReader where
  source := s
  produced := words
  count := words.length
  indent := -1
  outerIndents := []
  flowLevel := depth
  keyAllowed := keyAllowed
  candidates := cs

/-- No candidate has to be a key, and all belong to flow collections around a depth. -/
def Within (depth : Nat) (cs : List (Nat × Candidate)) : Prop :=
  ∀ c ∈ cs, c.2.required = false ∧ c.1 < depth

lemma within_nil : Within depth [] := List.forall_mem_nil _

lemma Within.subset (h : Within depth cs) (hcs : cs' ⊆ cs) : Within depth cs' :=
  fun c hc => h c (hcs hc)

lemma Within.succ (h : Within depth cs) : Within (depth + 1) cs :=
  fun c hc => ⟨(h c hc).1, Nat.lt_succ_of_lt (h c hc).2⟩

lemma Within.lookup_eq_none (h : Within depth cs) : cs.lookup depth = none := by
  rw [List.lookup_eq_none_iff]
  intro c hc
  simpa using (h c hc).2.ne'

/-- The candidate may still be a key at a place. -/
def isFresh (m : Mark) (c : Nat × Candidate) : Bool :=
  c.2.mark.line == m.line && decide (m.index ≤ c.2.mark.index + 1024)

/-- The candidates that may still be keys at a place. -/
abbrev freshAt (m : Mark) (cs : List (Nat × Candidate)) : List (Nat × Candidate) :=
  cs.filter (isFresh m)

lemma Within.freshAt (h : Within depth cs) (m : Mark) : Within depth (freshAt m cs) :=
  h.subset (List.filter_subset_self _)

/-- Candidates that are out of date are dropped, and no key is missing. -/
lemma dropStale_nested (h : Within bound cs) : (nested s words depth cs keyAllowed).dropStale
    = .ok (nested s words depth (freshAt s.mark cs) keyAllowed) := by
  have hdrop : ((nested s words depth [] keyAllowed).withCandidates cs).dropStale
      = .ok ((nested s words depth [] keyAllowed).withCandidates
          (cs.filter fun c => !(nested s words depth [] keyAllowed).isStale c.2)) :=
    dropStale_withCandidates fun c hc => (h c hc).1
  have hfresh : (fun c : Nat × Candidate => !(nested s words depth [] keyAllowed).isStale c.2)
      = isFresh s.mark := by
    funext c
    have hmark : (nested s words depth [] keyAllowed).mark = s.mark := rfl
    simp only [isStale, isFresh, hmark, Bool.not_or, bne, Bool.not_not, ← decide_not, Nat.not_lt]
  rw [hfresh] at hdrop
  exact hdrop

/-- Giving up the candidate of the present level. -/
lemma dropCandidate_nested (h : Within bound cs) :
    (nested s words depth cs keyAllowed).dropCandidate
      = .ok (nested s words depth (cs.filter fun c => c.1 != depth) keyAllowed) := by
  have hlevel : (nested s words depth cs keyAllowed).flowLevel = depth := rfl
  have hcandidates : (nested s words depth cs keyAllowed).candidates = cs := rfl
  rw [dropCandidate, hlevel, hcandidates]
  cases hlookup : cs.lookup depth with
  | none =>
    rw [List.lookup_eq_none_iff] at hlookup
    have hself : (cs.filter fun c => c.1 != depth) = cs :=
      List.filter_eq_self.mpr fun c hc => by simpa [bne_comm] using hlookup c hc
    rw [hself]
  | some c =>
    obtain ⟨before, after, rfl, -⟩ := List.lookup_eq_some_iff.mp hlookup
    have hrequired : c.required = false := (h (depth, c) (by simp)).1
    simp only [hrequired, Bool.false_eq_true, if_false]
    rfl

/-- Without its candidate a level has none. -/
lemma Within.drop (h : Within (depth + 1) cs) : Within depth (cs.filter fun c => c.1 != depth) := by
  intro c hc
  obtain ⟨hmem, hne⟩ := List.mem_filter.mp hc
  have hlt := (h c hmem).2
  have hne : c.1 ≠ depth := by simpa using hne
  exact ⟨(h c hmem).1, by omega⟩

lemma inFlow_nested (hdepth : 0 < depth) (s : Source) (words : List Token)
    (cs : List (Nat × Candidate)) (keyAllowed : Bool) :
    (nested s words depth cs keyAllowed).inFlow = true :=
  bne_iff_ne.mpr hdepth.ne'

lemma unwind_nested (column : Int) : (nested s words depth cs keyAllowed).unwind column
    = nested s words depth cs keyAllowed := by
  cases depth <;> rfl

/-! ### Single words -/

/-- A text starts with a character at which neither blanks nor a comment start. -/
def StartsFlowWord (t : Text) : Prop := ∃ c u, t = .char c :: u ∧ isGapChar c = false ∧ c ≠ '#'

lemma StartsFlowWord.startsToken (h : StartsFlowWord t) : StartsToken t := by
  obtain ⟨c, u, rfl, hc, -⟩ := h
  exact ⟨c, u, rfl, hc⟩

lemma ne_return_of_isGapChar (hc : isGapChar c = false) : c ≠ '\r' := by
  rintro rfl
  cases hc

/-- The next word starts where it stands. -/
lemma nextWord_placed (h : StartsFlowWord t) (broken : Bool) (m : Mark) :
    nextWord false broken (placed m t) = (broken, placed m t) := by
  obtain ⟨c, u, rfl, hc, hhash⟩ := h
  obtain ⟨hspace, hbreak⟩ := Bool.or_eq_false_iff.mp hc
  rw [placed_char (ne_return_of_isGapChar hc), nextWord]
  simp [hbreak, beq_eq_false_iff_ne.mp hspace, hhash]

/-- Nothing is skipped where a word starts. -/
lemma skipBlanks_word (h : StartsFlowWord t) :
    (nested (placed m t) words depth cs keyAllowed).skipBlanks
      = nested (placed m t) words depth cs keyAllowed := by
  have hsource : (nested (placed m t) words depth cs keyAllowed).source = placed m t := rfl
  rw [skipBlanks, hsource, nextWord_placed h]
  simp [nested]

/-- The next word of a flow collection. -/
lemma step_nested (h : StartsFlowWord (.char c :: t)) (hcs : Within bound cs) (m : Mark)
    (words : List Token) (depth : Nat) (keyAllowed : Bool) :
    (nested (placed m (.char c :: t)) words depth cs keyAllowed).step
      = (nested (placed m (.char c :: t)) words depth (freshAt m cs) keyAllowed).word c
        (placed (m.next c) t) >>=
          fun r => r.dropStale >>= fun r => .ok (some r) := by
  have hmark : (placed m (.char c :: t)).mark = m := mark_placed
  obtain ⟨hc, hhash⟩ : isGapChar c = false ∧ c ≠ '#' := by
    obtain ⟨d, u, heq, hd⟩ := h
    cases heq
    exact hd
  rw [step, skipBlanks_word h, dropStale_nested hcs, ok_bind, unwind_nested, hmark]
  have hsource : (nested (placed m (.char c :: t)) words depth (freshAt m cs) keyAllowed).source
      = .more c m (placed (m.next c) t) := placed_char (ne_return_of_isGapChar hc)
  simp only [hsource]
  rfl

/-- A word that is put out. -/
lemma Runs.of_word (h : StartsFlowWord (.char c :: t)) (hcs : Within bound cs)
    (hword : (nested (placed m (.char c :: t)) words depth (freshAt m cs) keyAllowed).word c
      (placed (m.next c) t) = .ok (nested s words' depth' cs' keyAllowed'))
    (hcs' : Within bound' cs') (hlength : s.length < (placed m (.char c :: t)).length) :
    Runs (nested (placed m (.char c :: t)) words depth cs keyAllowed)
      (nested s words' depth' (freshAt s.mark cs') keyAllowed') := by
  refine Runs.of_step ?_ hlength
  rw [step_nested h hcs, hword, ok_bind, dropStale_nested hcs']
  rfl

/-! ### Blanks -/

/-- Spaces are skipped up to the next word. -/
lemma skipBlanks_nested (b : Text) (hb : ∀ c ∈ b, isSpace c = true) (htab : .char '\t' ∉ b)
    (ht : StartsFlowWord t) (m : Mark) (words : List Token) (depth : Nat)
    (cs : List (Nat × Candidate)) (keyAllowed : Bool) :
    ∃ m' allowed, IsAfter b m m' ∧ (keyAllowed = true ∨ 0 < depth → allowed = keyAllowed) ∧
      (nested (placed m (b ++ t)) words depth cs keyAllowed).skipBlanks
        = nested (placed m' t) words depth cs allowed := by
  obtain ⟨m', hm, hskip⟩ := skip_blanks b hb htab ht.startsToken m
  obtain ⟨broken, hnext⟩ := exists_nextWord_eq false (placed m (b ++ t))
  have hsource : (nested (placed m (b ++ t)) words depth cs keyAllowed).source
      = placed m (b ++ t) := rfl
  refine ⟨m', keyAllowed || (broken && !(depth != 0)), hm, ?_, ?_⟩
  · rintro (rfl | hpos)
    · rfl
    · simp [hpos.ne']
  · rw [skipBlanks, hsource, hnext, hskip, nextWord_placed ht]
    rfl

/-- Blanks in front of a word, where keys are allowed or stay as they are. -/
lemma runs_blanks (hb : ∀ c ∈ b, isSpace c = true) (htab : .char '\t' ∉ b) (ht : StartsFlowWord t)
    (m : Mark) (words : List Token) (depth : Nat) (cs : List (Nat × Candidate))
    (keyAllowed : Bool) :
    ∃ m' allowed, IsAfter b m m' ∧ (keyAllowed = true ∨ 0 < depth → allowed = keyAllowed) ∧
      Runs (nested (placed m (b ++ t)) words depth cs keyAllowed)
        (nested (placed m' t) words depth cs allowed) := by
  obtain ⟨m', allowed, hm, hallowed, hskip⟩ :=
    skipBlanks_nested b hb htab ht m words depth cs keyAllowed
  exact ⟨m', allowed, hm, hallowed,
    Runs.of_dropStale (length_placed_le_append m m' b t) (by rw [hskip, skipBlanks_word ht])⟩

/-- A tabulator is no blank between words. -/
lemma Fails.tab (hcs : Within bound cs) :
    Fails (nested (placed m (.char '\t' :: t)) words depth cs keyAllowed) := by
  have hword : (nested (placed m (.char '\t' :: t)) words depth (freshAt m cs) keyAllowed).word '\t'
      (placed (m.next '\t') t) = refuse (some .nextToken) none (.noToken '\t') m := by
    simp [word, nested, TokenReader.mark, atTriple, startsPlain, isSpaceOrTab]
  have hstep := step_nested ⟨'\t', t, rfl, by decide, by decide⟩ hcs m words depth keyAllowed
  rw [hword] at hstep
  exact Fails.of_step hstep

/-- A tab between words stops the reader. -/
lemma Fails.blanks (hb : ∀ c ∈ b, isSpace c = true) (htab : .char '\t' ∈ b)
    (hcs : Within bound cs) :
    Fails (nested (placed m (b ++ t)) words depth cs keyAllowed) := by
  obtain ⟨before, after, rfl, hbefore⟩ := List.eq_append_cons_of_mem htab
  obtain ⟨m', allowed, -, -, hruns⟩ := runs_blanks (List.forall_mem_append.mp hb).1 hbefore
    ⟨'\t', after ++ t, rfl, by decide, by decide⟩ m words depth cs keyAllowed
  rw [List.append_assoc, List.cons_append]
  exact hruns.fails (Fails.tab hcs)

/-- Blanks in front of a word. -/
theorem leadsIf_blanks (hb : ∀ c ∈ b, isSpace c = true) (ht : StartsFlowWord t)
    (hcs : Within bound cs) (hkey : keyAllowed = true ∨ 0 < depth) (m : Mark) (words : List Token) :
    LeadsIf (.char '\t' ∉ b)
      (fun r => ∃ m', IsAfter b m m' ∧ r = nested (placed m' t) words depth cs keyAllowed)
      (nested (placed m (b ++ t)) words depth cs keyAllowed) := by
  refine ⟨fun htab => ?_, fun htab => Fails.blanks hb (not_not.mp htab) hcs⟩
  obtain ⟨m', allowed, hm, hallowed, hruns⟩ := runs_blanks hb htab ht m words depth cs keyAllowed
  rw [hallowed hkey] at hruns
  exact ⟨_, ⟨m', hm, rfl⟩, hruns⟩

/-! ### Brackets and commas -/

/-- The candidates after the one that a reader remembers at the start of a word. -/
def added (m : Mark) (words : List Token) (depth : Nat) (cs : List (Nat × Candidate))
    (keyAllowed : Bool) :
    List (Nat × Candidate) :=
  if keyAllowed then (depth, ⟨words.length, false, m⟩) :: cs else cs

lemma Within.added (h : Within depth cs) (m : Mark) (words : List Token) (keyAllowed : Bool) :
    Within (depth + 1) (added m words depth cs keyAllowed) := by
  cases keyAllowed with
  | false => exact h.succ
  | true => exact List.forall_mem_cons.mpr ⟨⟨rfl, Nat.lt_succ_self depth⟩, h.succ⟩

/-- A candidate is added where one may be, and no key is missing. -/
lemma addCandidate_nested (h : Within depth cs) (s : Source) (words : List Token)
    (keyAllowed : Bool) :
    (nested s words depth cs keyAllowed).addCandidate
      = .ok (nested s words depth (added s.mark words depth cs keyAllowed) keyAllowed) := by
  cases keyAllowed with
  | false => rfl
  | true =>
    have hself : (cs.filter fun c => c.1 != depth) = cs :=
      List.filter_eq_self.mpr fun c hc => by simpa using (h c hc).2.ne
    have hallowed : (nested s words depth cs true).keyAllowed = true := rfl
    have hrequired : (!(nested s words depth cs true).inFlow
        && (nested s words depth cs true).indent == (nested s words depth cs true).mark.column)
        = false := by
      have hcolumn : ((-1 : Int) == (s.mark.column : Int)) = false :=
        beq_eq_false_iff_ne.mpr (by omega)
      exact Bool.and_eq_false_iff.mpr (.inr hcolumn)
    rw [addCandidate, if_pos hallowed, hrequired, dropCandidate_nested h, hself]
    rfl

lemma drop_placed (hc : c ≠ '\r') : (placed m (.char c :: t)).drop 1 = placed (m.next c) t := by
  rw [placed_char hc]
  rfl

lemma take_nested {w : Word} (hc : c ≠ '\r') :
    (nested (placed m (.char c :: t)) words depth cs keyAllowed).take w 1
      = nested (placed (m.next c) t) (⟨w, m, (placed (m.next c) t).mark⟩ :: words) depth cs
        keyAllowed := by
  simp [TokenReader.take, push, nested, TokenReader.mark, drop_placed hc]

inductive IsOpening : Char → Word → Prop
  | sequence : IsOpening '[' .flowSequenceStart
  | mapping : IsOpening '\x7b' .flowMappingStart

inductive IsClosing : Char → Word → Prop
  | sequence : IsClosing ']' .flowSequenceEnd
  | mapping : IsClosing '\x7d' .flowMappingEnd

/-- An opening bracket. -/
lemma Runs.opens {w : Word} (h : IsOpening c w) (hcs : Within depth cs) (t : Text) (m : Mark)
    (words : List Token) (keyAllowed : Bool) :
    ∃ stop cs', Within (depth + 1) cs' ∧
      Runs (nested (placed m (.char c :: t)) words depth cs keyAllowed)
        (nested (placed (m.next c) t) (⟨w, m, stop⟩ :: words) (depth + 1) cs' true) := by
  have hstart : StartsFlowWord (.char c :: t) :=
    ⟨c, t, rfl, by cases h <;> decide, by cases h <;> decide⟩
  have hc : c ≠ '\r' := by cases h <;> decide
  have hadd := addCandidate_nested (hcs.freshAt m) (placed m (.char c :: t)) words keyAllowed
  have hopen : (nested (placed m (.char c :: t)) words depth (freshAt m cs) keyAllowed).word c
      (placed (m.next c) t)
      = (nested (placed m (.char c :: t)) words depth (freshAt m cs) keyAllowed).openFlow w := by
    cases h <;> simp [word, nested, atTriple]
  have hwithin := (hcs.freshAt m).added (placed m (.char c :: t)).mark words keyAllowed
  refine ⟨(placed (m.next c) t).mark, _, hwithin.freshAt _,
    Runs.of_word hstart hcs ?_ hwithin (length_placed_lt hc m _ [] t)⟩
  rw [hopen, openFlow, hadd, ok_bind, take_nested hc]
  rfl

/-- A closing bracket. -/
lemma Runs.closes {w : Word} (h : IsClosing c w) (hcs : Within (depth + 2) cs) (t : Text) (m : Mark)
    (words : List Token) (keyAllowed : Bool) :
    ∃ stop cs', Within (depth + 1) cs' ∧
      Runs (nested (placed m (.char c :: t)) words (depth + 1) cs keyAllowed)
        (nested (placed (m.next c) t) (⟨w, m, stop⟩ :: words) depth cs' false) := by
  have hstart : StartsFlowWord (.char c :: t) :=
    ⟨c, t, rfl, by cases h <;> decide, by cases h <;> decide⟩
  have hc : c ≠ '\r' := by cases h <;> decide
  have hclose :
      (nested (placed m (.char c :: t)) words (depth + 1) (freshAt m cs) keyAllowed).word c
          (placed (m.next c) t)
        = (nested (placed m (.char c :: t)) words (depth + 1) (freshAt m cs)
            keyAllowed).closeFlow w := by
    cases h <;> simp [word, nested, atTriple]
  have hwithin := (hcs.freshAt m).drop
  refine ⟨(placed (m.next c) t).mark, _, hwithin.freshAt _,
    Runs.of_word hstart hcs ?_ hwithin (length_placed_lt hc m _ [] t)⟩
  rw [hclose, closeFlow, dropCandidate_nested (hcs.freshAt m), ok_bind, take_nested hc]
  rfl

/-- A comma. -/
lemma Runs.comma (hcs : Within (depth + 1) cs) (t : Text) (m : Mark) (words : List Token)
    (keyAllowed : Bool) :
    ∃ stop cs', Within depth cs' ∧
      Runs (nested (placed m (.char ',' :: t)) words depth cs keyAllowed)
        (nested (placed (m.next ',') t) (⟨.flowEntry, m, stop⟩ :: words) depth cs' true) := by
  have hcomma : (nested (placed m (.char ',' :: t)) words depth (freshAt m cs) keyAllowed).word ','
      (placed (m.next ',') t)
        = (nested (placed m (.char ',' :: t)) words depth (freshAt m cs) keyAllowed).flowEntry := by
    simp [word, nested, atTriple]
  have hwithin := (hcs.freshAt m).drop
  refine ⟨(placed (m.next ',') t).mark, _, hwithin.freshAt _,
    Runs.of_word ⟨',', t, rfl, by decide, by decide⟩ hcs ?_ hwithin
      (length_placed_lt (by decide) m _ [] t)⟩
  rw [hcomma, flowEntry, dropCandidate_nested (hcs.freshAt m), ok_bind, take_nested (by decide)]
  rfl

/-! ### Scalars -/

/-- A scalar that may be a key leaves a candidate behind. -/
lemma keyWord_nested {read : Source → Except Failure (Word × Source)} {w : Word}
    (hcs : Within depth cs) (hread : read s = .ok (w, s')) (words : List Token)
    (keyAllowed : Bool) :
    (nested s words depth cs keyAllowed).keyWord read
      = .ok (nested s' (⟨w, s.mark, s'.mark⟩ :: words) depth
        (added s.mark words depth cs keyAllowed) false) := by
  have hsource : (nested s words depth (added s.mark words depth cs keyAllowed) keyAllowed).source
      = s := rfl
  rw [keyWord, addCandidate_nested hcs, ok_bind, hsource, hread]
  rfl

/-- A text between double quotes. -/
lemma runs_text (ps : List Json.Piece) (hps : IsInline (ps.flatMap Json.Piece.text))
    (hcs : Within depth cs) (rest : Text) (m : Mark) (words : List Token) (keyAllowed : Bool) :
    ∃ stop, Runs (nested (placed m (quoted ps ++ rest)) words depth cs keyAllowed)
      (nested (placed (m.after (quoted ps)) rest)
        (⟨.scalar (seenContent ps) false, m, stop⟩ :: words) depth
        (freshAt (placed (m.after (quoted ps)) rest).mark
          (added m words depth (freshAt m cs) keyAllowed))
        false) := by
  have hread : quotedWord true (placed m (quoted ps ++ rest))
      = .ok (.scalar (seenContent ps) false, placed (m.after (quoted ps)) rest) := by
    rw [quotedWord, quotedScalar_quoted ps hps]
    rfl
  have hmark : (placed m (quoted ps ++ rest)).mark = m := mark_placed
  have hword :
      (nested (placed m (quoted ps ++ rest)) words depth (freshAt m cs) keyAllowed).word '"'
          (placed (m.next '"') ((ps.flatMap Json.Piece.text ++ [.char '"']) ++ rest))
        = (nested (placed m (quoted ps ++ rest)) words depth (freshAt m cs) keyAllowed).keyWord
            (quotedWord true) := by
    simp [word, nested, atTriple, quoted]
  have hkeyWord := keyWord_nested (hcs.freshAt m) hread words keyAllowed
  rw [← hword, hmark] at hkeyWord
  have hwithin := (hcs.freshAt m).added m words keyAllowed
  exact ⟨_, Runs.of_word ⟨'"', _, rfl, by decide, by decide⟩ hcs hkeyWord hwithin
    (length_placed_lt (by decide) m _ _ rest)⟩

/-- A word or a number is a plain scalar. -/
lemma word_flowWord (hc : isWordChar c = true) (hdot : c ≠ '.')
    (hdash : c = '-' → ∃ d u, t = .char d :: u ∧ d ≠ '-' ∧ isWordChar d = true)
    (hdepth : 0 < depth) :
    (nested (placed m (.char c :: t)) words depth cs keyAllowed).word c (placed (m.next c) t)
      = (nested (placed m (.char c :: t)) words depth cs keyAllowed).plainScalar := by
  have hne (d : Char) (hd : isWordChar d = false) : c ≠ d := ne_of_isWordChar hc hd
  -- A dash is followed by a character of the word, so no marker of a document starts here.
  have htriple : (placed m (.char c :: t)).atTriple '-' = false ∧
      (placed m (.char c :: t)).atTriple '.' = false := by
    refine ⟨?_, by simp [atTriple, hdot]⟩
    by_cases hd : c = '-'
    · obtain ⟨d, u, rfl, hnext, -⟩ := hdash hd
      rw [placed_char (hne '\r' rfl)]
      simp [atTriple, tail, hnext]
    · simp [atTriple, hd]
  have hblank (h : c = '-') : (placed (m.next c) t).atBlank = false := by
    obtain ⟨d, u, rfl, -, hd⟩ := hdash h
    obtain ⟨hspace, hbreak⟩ := isBlank_of_isWordChar hd
    simp [atBlank, hspace, hbreak]
  have hplain : startsPlain true c (placed (m.next c) t) = true := by
    obtain ⟨hspace, hbreak⟩ := isBlank_of_isWordChar hc
    have hlist : ",[]\x7b\x7d#&*!|>'\"%@\x60".toList.contains c = false := by
      -- No indicator is a character of a word.
      rw [List.contains_eq_mem, decide_eq_false_iff_not]
      intro hmem
      have hall : ",[]\x7b\x7d#&*!|>'\"%@\x60".toList.all (!isWordChar ·) = true := by decide
      exact hne c (by simpa using List.all_eq_true.mp hall c hmem) rfl
    have hquestion : ¬ (c = '?' ∨ c = ':') := not_or.mpr ⟨hne '?' rfl, hne ':' rfl⟩
    rw [startsPlain, hspace, hbreak, if_neg (by decide), if_neg hquestion]
    split
    case isTrue h => rw [hblank h]; rfl
    case isFalse => rw [hlist]; rfl
  have hflow := inFlow_nested hdepth (placed m (.char c :: t)) words cs keyAllowed
  have hsource : (nested (placed m (.char c :: t)) words depth cs keyAllowed).source
      = placed m (.char c :: t) := rfl
  have hentry : ¬ (c = '-' ∧ (placed (m.next c) t).atBlank = true) := by
    rintro ⟨h, hb⟩
    rw [hblank h] at hb
    cases hb
  simp only [word, hsource, htriple, hflow, hplain, hentry, hne '%' rfl, hne '[' rfl,
    hne '\x7b' rfl, hne ']' rfl, hne '\x7d' rfl, hne ',' rfl, hne '?' rfl, hne ':' rfl, hne '*' rfl,
    hne '&' rfl, hne '!' rfl, hne '|' rfl, hne '>' rfl, hne '\'' rfl, hne '"' rfl, false_and,
    and_false, if_false, if_true, Bool.false_eq_true]

/-- A plain scalar leaves a candidate behind. -/
lemma plainScalar_nested {found : Plain} (hdepth : 0 < depth) (hcs : Within depth cs)
    (hread : Yaml.plainScalar true 0 s = found) (words : List Token) (keyAllowed : Bool) :
    (nested s words depth cs keyAllowed).plainScalar
      = .ok (nested found.rest
          (⟨.scalar (Text.ofChars found.content) true, s.mark, found.stop⟩ :: words) depth
          (added s.mark words depth cs keyAllowed) found.broken) := by
  have hindent : (nested s words depth (added s.mark words depth cs keyAllowed) keyAllowed).indent
      + 1 = 0 := rfl
  have hsource : (nested s words depth (added s.mark words depth cs keyAllowed) keyAllowed).source
      = s := rfl
  rw [plainScalar, addCandidate_nested hcs, ok_bind, inFlow_nested hdepth, hindent, hsource, hread]
  rfl

/-- A word or a number starts a word of a flow collection. -/
lemma startsFlowWord_flowWord (h : IsFlowWord t) (rest : Text) : StartsFlowWord (t ++ rest) := by
  obtain ⟨c, u, rfl, -⟩ := h.starts
  obtain ⟨d, hd, hword⟩ := h.chars _ List.mem_cons_self
  obtain rfl := CodePoint.char.inj hd
  exact ⟨c, u ++ rest, rfl,
    Bool.or_eq_false_iff.mpr
      ⟨beq_eq_false_iff_ne.mpr (ne_of_isWordChar hword rfl), (isBlank_of_isWordChar hword).2⟩,
    ne_of_isWordChar hword rfl⟩

/-- A word or a number, with the blanks after it. -/
lemma runs_flowWord (ht : IsFlowWord t) (hb : ∀ d ∈ b, isSpace d = true) (htab : .char '\t' ∉ b)
    (hc : isAfterValue c = true) (hdepth : 0 < depth) (hcs : Within depth cs) (rest : Text)
    (m : Mark) (words : List Token) (keyAllowed : Bool) :
    ∃ m' stop cs' keyAllowed', Within (depth + 1) cs' ∧
      Runs (nested (placed m (t ++ (b ++ .char c :: rest))) words depth cs keyAllowed)
        (nested (placed m' (.char c :: rest)) (⟨.scalar t true, m, stop⟩ :: words) depth cs'
          keyAllowed') := by
  obtain ⟨content, stop, broken, m', hcontent, hread⟩ := plainScalar_flowWord ht hb htab hc rest 0 m
  obtain ⟨d, u, rfl, hdot, hdash⟩ := ht.starts
  obtain ⟨⟨e, he, hd⟩, hu⟩ := List.forall_mem_cons.mp ht.chars
  obtain rfl : d = e := by simpa using he
  have hstart : StartsFlowWord (.char d :: (u ++ (b ++ .char c :: rest))) :=
    startsFlowWord_flowWord ht _
  -- After a dash there is another character of the word.
  have hsecond : d = '-' →
      ∃ e v, u ++ (b ++ .char c :: rest) = .char e :: v ∧ e ≠ '-' ∧ isWordChar e = true := by
    intro h
    obtain ⟨e, v, rfl, hne⟩ := hdash h
    obtain ⟨e', he', hword⟩ := (List.forall_mem_cons.mp hu).1
    obtain rfl : e = e' := by simpa using he'
    exact ⟨e, _, rfl, hne, hword⟩
  have hscalar := plainScalar_nested hdepth (hcs.freshAt m) hread words keyAllowed
  rw [← hcontent, List.cons_append, ← word_flowWord hd hdot hsecond hdepth, mark_placed] at hscalar
  have hlength := length_placed_lt (ne_of_isWordChar hd rfl) m m' (u ++ b) (.char c :: rest)
  rw [List.append_assoc] at hlength
  have hwithin := (hcs.freshAt m).added m words keyAllowed
  exact ⟨m', stop, _, broken, hwithin.freshAt _, Runs.of_word hstart hcs hscalar hwithin hlength⟩

/-- A word or a number is read with the blanks after it, unless a tab is among them. -/
theorem leadsIf_flowWord (ht : IsFlowWord t) (hb : ∀ d ∈ b, isSpace d = true)
    (hc : isAfterValue c = true) (hdepth : 0 < depth) (hcs : Within depth cs) (rest : Text)
    (m : Mark) (words : List Token) (keyAllowed : Bool) :
    LeadsIf (.char '\t' ∉ b)
      (fun r => ∃ m' stop cs' keyAllowed', Within (depth + 1) cs' ∧
        r = nested (placed m' (.char c :: rest)) (⟨.scalar t true, m, stop⟩ :: words) depth cs'
          keyAllowed')
      (nested (placed m (t ++ (b ++ .char c :: rest))) words depth cs keyAllowed) := by
  refine ⟨fun htab => ?_, fun htab => ?_⟩
  · obtain ⟨m', stop, cs', keyAllowed', hwithin, hruns⟩ :=
      runs_flowWord ht hb htab hc hdepth hcs rest m words keyAllowed
    exact ⟨_, ⟨m', stop, cs', keyAllowed', hwithin, rfl⟩, hruns⟩
  · obtain ⟨before, after, rfl, hbefore⟩ := List.eq_append_cons_of_mem (not_not.mp htab)
    obtain ⟨m', stop, cs', keyAllowed', hwithin, hruns⟩ :=
      runs_flowWord (c := '\t') ht (List.forall_mem_append.mp hb).1 hbefore rfl hdepth hcs
        (after ++ .char c :: rest) m words keyAllowed
    rw [List.append_assoc, List.cons_append]
    exact hruns.fails (Fails.tab hwithin)

/-! ### Names -/

/-- The blanks after a value start where the value ends. -/
lemma mark_placed_blanks (hb : ∀ d ∈ b, isSpace d = true) :
    (placed m (b ++ .char c :: t)).mark = m := by
  cases b with
  | nil => exact mark_placed
  | cons d b =>
    rcases Json.isSpace_iff.mp (hb d List.mem_cons_self) with rfl | rfl | rfl | rfl <;>
      exact mark_placed

lemma isFresh_iff {x : Nat × Candidate} :
    isFresh m x = true ↔ x.2.mark.line = m.line ∧ m.index ≤ x.2.mark.index + 1024 := by
  simp [isFresh]

/-- A candidate is a key after the blanks that come after it if the name is narrow. -/
lemma isFresh_and_iff_isNarrow (n : Name) (hps : IsInline (n.pieces.flatMap Json.Piece.text))
    {m' : Mark} (hm' : IsAfter n.after.val (m.after (quoted n.pieces)) m') {x : Nat × Candidate}
    (hx : x.2.mark = m) :
    isFresh (m.after (quoted n.pieces)) x = true ∧ isFresh m' x = true ↔ n.IsNarrow := by
  have hquoted := isInline_quoted hps
  obtain ⟨hline, hindex⟩ := (hquoted.isAfter m).eq_of_staysOnLine hquoted.staysOnLine
  rw [isFresh_iff, isFresh_iff, hx, hline, hindex]
  constructor
  · rintro ⟨-, hline', hindex'⟩
    have hstays : StaysOnLine n.after.val := by
      by_contra h
      have hlt := hm'.line_lt h
      omega
    obtain ⟨-, hafter⟩ := hm'.eq_of_staysOnLine hstays
    exact ⟨by omega, hstays⟩
  · rintro ⟨hlength, hstays⟩
    obtain ⟨hline', hafter⟩ := hm'.eq_of_staysOnLine hstays
    omega

/-- The tokens of a name. It is a key under a condition only. -/
def IsNameTokens (narrow : Prop) (content : Text) (ts : List Token) : Prop :=
  ∃ key start stop start' stop',
    (narrow →
        ts = [⟨.key, key, key⟩, ⟨.scalar content false, start, stop⟩, ⟨.value, start', stop'⟩]) ∧
      (¬ narrow → ts = [⟨.scalar content false, start, stop⟩, ⟨.value, start', stop'⟩])

lemma word_colon_nested (hdepth : 0 < depth) {next : Source} :
    (nested (placed m (.char ':' :: t)) words depth cs keyAllowed).word ':' next
      = (nested (placed m (.char ':' :: t)) words depth cs keyAllowed).value := by
  simp [word, nested, inFlow, atTriple, hdepth.ne']

/-- The colon after a candidate makes a key of the scalar before it. -/
lemma valueOf_nested {x : Candidate} {scalar : Token} (hdepth : 0 < depth)
    (hx : x.number = words.length) :
    (nested (placed m (.char ':' :: t)) (scalar :: words) depth cs keyAllowed).valueOf x
      = nested (placed (m.next ':') t)
          (⟨.value, m, (placed (m.next ':') t).mark⟩ :: scalar :: ⟨.key, x.mark, x.mark⟩ :: words)
          depth (cs.filter fun c => c.1 != depth) false := by
  have hdrop := drop_placed (m := m) (t := t) (by decide : ':' ≠ '\r')
  simp [valueOf, insert, TokenReader.take, push, inFlow, nested, TokenReader.mark, hx, hdepth.ne',
    hdrop]

/-- A colon after a candidate. -/
lemma Runs.keyColon {x : Candidate} {scalar : Token} (hcs : Within (depth + 1) cs)
    (hdepth : 0 < depth) (hlookup : (freshAt m cs).lookup depth = some x)
    (hx : x.number = words.length) :
    ∃ stop cs', Within depth cs' ∧
      Runs (nested (placed m (.char ':' :: t)) (scalar :: words) depth cs keyAllowed)
        (nested (placed (m.next ':') t)
          (⟨.value, m, stop⟩ :: scalar :: ⟨.key, x.mark, x.mark⟩ :: words) depth cs' false) := by
  have hwithin := (hcs.freshAt m).drop
  refine ⟨(placed (m.next ':') t).mark, _, hwithin.freshAt _,
    Runs.of_word ⟨':', t, rfl, by decide, by decide⟩ hcs ?_ hwithin
      (length_placed_lt (by decide) m _ [] t)⟩
  let r := nested (placed m (.char ':' :: t)) (scalar :: words) depth (freshAt m cs) keyAllowed
  have hkept : r.candidates.lookup r.flowLevel = some x := hlookup
  rw [word_colon_nested hdepth, value, hkept]
  exact congrArg Except.ok (valueOf_nested hdepth hx)

/-- A colon without a candidate. -/
lemma Runs.loneColon (hcs : Within (depth + 1) cs) (hdepth : 0 < depth)
    (hlookup : (freshAt m cs).lookup depth = none) :
    ∃ stop cs', Within depth cs' ∧
      Runs (nested (placed m (.char ':' :: t)) words depth cs keyAllowed)
        (nested (placed (m.next ':') t) (⟨.value, m, stop⟩ :: words) depth cs' false) := by
  have hwithin := (hcs.freshAt m).drop
  refine ⟨(placed (m.next ':') t).mark, _, hwithin.freshAt _,
    Runs.of_word ⟨':', t, rfl, by decide, by decide⟩ hcs ?_ hwithin
      (length_placed_lt (by decide) m _ [] t)⟩
  let r := nested (placed m (.char ':' :: t)) words depth (freshAt m cs) keyAllowed
  have hkept : r.candidates.lookup r.flowLevel = none := hlookup
  rw [word_colon_nested hdepth, value, hkept, inFlow_nested hdepth]
  simp only [Bool.not_true, Bool.false_and, Bool.false_eq_true, if_false, if_true]
  rw [dropCandidate_nested (hcs.freshAt m), ok_bind, take_nested (by decide), inFlow_nested hdepth]
  rfl

/-- The candidate at the start of a name is there as long as it is fresh. -/
lemma lookup_freshAt_added (hcs : Within depth cs) (words : List Token) (m m₁ m₂ : Mark) :
    (freshAt m₂ (freshAt m₁ (added m words depth cs true))).lookup depth
      = if isFresh m₁ (depth, ⟨words.length, false, m⟩) = true ∧
          isFresh m₂ (depth, ⟨words.length, false, m⟩) = true
        then some ⟨words.length, false, m⟩ else none := by
  have hnone := ((hcs.freshAt m₁).freshAt m₂).lookup_eq_none
  rw [added, if_pos rfl, freshAt, freshAt, List.filter_cons]
  split
  case isTrue h₁ =>
    rw [List.filter_cons]
    split
    case isTrue h₂ => rw [List.lookup_cons_self, if_pos ⟨h₁, h₂⟩]
    case isFalse h₂ => rw [hnone, if_neg fun h => h₂ h.2]
  case isFalse h₁ => rw [hnone, if_neg fun h => h₁ h.1]

/-- The colon of a name whose candidate was there at the end of its text. -/
lemma runs_nameColon (n : Name) (hps : IsInline (n.pieces.flatMap Json.Piece.text)) {m' : Mark}
    (hm' : IsAfter n.after.val (m.after (quoted n.pieces)) m') (hdepth : 0 < depth)
    (hcs : Within depth cs) (stop : Mark) (t : Text) (words : List Token) :
    ∃ ts cs', IsNameTokens n.IsNarrow (seenContent n.pieces) ts ∧ Within depth cs' ∧
      Runs
        (nested (placed m' (.char ':' :: t))
          (⟨.scalar (seenContent n.pieces) false, m, stop⟩ :: words) depth
          (freshAt (m.after (quoted n.pieces)) (added m words depth cs true)) false)
        (nested (placed (m'.next ':') t) (ts.reverse ++ words) depth cs' false) := by
  have hlookup := lookup_freshAt_added hcs words m (m.after (quoted n.pieces)) m'
  have hnarrow := isFresh_and_iff_isNarrow n hps hm' (x := (depth, ⟨words.length, false, m⟩)) rfl
  have hadded := (hcs.added m words true).freshAt (m.after (quoted n.pieces))
  by_cases hn : n.IsNarrow
  · rw [if_pos (hnarrow.mpr hn)] at hlookup
    obtain ⟨stop', cs', hcs', hruns⟩ := Runs.keyColon hadded hdepth hlookup rfl
    exact ⟨_, cs', ⟨m, m, stop, m', stop', fun _ => rfl, fun h => absurd hn h⟩, hcs', hruns⟩
  · rw [if_neg (mt hnarrow.mp hn)] at hlookup
    obtain ⟨stop', cs', hcs', hruns⟩ := Runs.loneColon hadded hdepth hlookup
    exact ⟨_, cs', ⟨m, m, stop, m', stop', fun h => absurd h hn, fun _ => rfl⟩, hcs', hruns⟩

/-- A name with its colon. -/
theorem leadsIf_name (n : Name) (hps : IsInline (n.pieces.flatMap Json.Piece.text))
    (ht : StartsFlowWord t) (hdepth : 0 < depth) (hcs : Within depth cs) (m : Mark)
    (words : List Token) :
    LeadsIf (.char '\t' ∉ n.after.val ∧ .char '\t' ∉ n.before.val)
      (fun r => ∃ ts m' cs', IsNameTokens n.IsNarrow (seenContent n.pieces) ts ∧ Within depth cs' ∧
        r = nested (placed m' t) (ts.reverse ++ words) depth cs' false)
      (nested (placed m (n.text ++ t)) words depth cs true) := by
  have htext : n.text ++ t = quoted n.pieces
      ++ (n.after.val ++ .char ':' :: (n.before.val ++ t)) := by
    simp [Name.text]
  have hcolon : StartsFlowWord (.char ':' :: (n.before.val ++ t)) :=
    ⟨':', _, rfl, by decide, by decide⟩
  have hadded := ((hcs.freshAt m).added m words true).freshAt (m.after (quoted n.pieces))
  obtain ⟨stop, hquoted⟩ :=
    runs_text n.pieces hps hcs (n.after.val ++ .char ':' :: (n.before.val ++ t)) m words true
  rw [mark_placed_blanks n.after.property] at hquoted
  rw [htext]
  -- The text is read, then its blanks, then the colon by the candidate that the text left.
  refine LeadsIf.of_runs hquoted
    ((leadsIf_blanks n.after.property hcolon hadded (.inr hdepth) _ _).bind ?_)
  rintro _ ⟨m', hm', rfl⟩
  obtain ⟨ts, cs', hts, hcs', hruns⟩ :=
    runs_nameColon n hps hm' hdepth (hcs.freshAt m) stop (n.before.val ++ t) words
  refine LeadsIf.of_runs hruns ((leadsIf_blanks n.before.property ht hcs' (.inr hdepth) _ _).imp ?_)
  rintro _ ⟨m'', -, rfl⟩
  exact ⟨ts, m'', cs', hts, hcs', rfl⟩

/-! ### The end of a document -/

/-- Blanks and a comment at the end of a document. -/
lemma skipBlanks_comment (hb : ∀ d ∈ b, isSpace d = true) (htab : .char '\t' ∉ b) (m : Mark)
    (words : List Token) (depth : Nat) (cs : List (Nat × Candidate)) (keyAllowed : Bool) :
    ∃ m' allowed, (nested (placed m (b ++ "\n# x")) words depth cs keyAllowed).skipBlanks
      = nested (.done m') words depth cs allowed := by
  have hsplit : b ++ ("\n# x" : Text) = (b ++ [.char '\n']) ++ ("# x" : Text) := by
    rw [List.append_assoc]
    rfl
  obtain ⟨m', -, hskip⟩ := skip_blanks (b ++ [.char '\n']) (t := "# x")
    (List.forall_mem_append.mpr ⟨hb, by decide⟩) (by simpa using htab) ⟨'#', _, rfl, rfl⟩ m
  obtain ⟨broken, hnext⟩ := exists_nextWord_eq false (placed m (b ++ "\n# x"))
  have hcomment : ∃ m'', nextWord false broken (placed m' "# x") = (broken, .done m'') := ⟨_, rfl⟩
  obtain ⟨m'', hcomment⟩ := hcomment
  have hsource : (nested (placed m (b ++ "\n# x")) words depth cs keyAllowed).source
      = placed m (b ++ "\n# x") := rfl
  rw [← hsplit] at hskip
  exact ⟨m'', _, by rw [skipBlanks, hsource, hnext, hskip, hcomment]; rfl⟩

/-- A reader in front of blanks and a comment comes to the end of the document. -/
lemma run_comment (hb : ∀ d ∈ b, isSpace d = true) (htab : .char '\t' ∉ b) (hcs : Within bound cs)
    (m : Mark) (words : List Token) (keyAllowed : Bool) :
    ∃ m', ∀ fuel, (nested (placed m (b ++ "\n# x")) words 0 cs keyAllowed).run (fuel + 1)
      = ⟨words.reverse, .ok m'⟩ := by
  obtain ⟨m', allowed, hskip⟩ := skipBlanks_comment hb htab m words 0 cs keyAllowed
  have hstep : (nested (placed m (b ++ "\n# x")) words 0 cs keyAllowed).step = .ok none := by
    rw [step, hskip, dropStale_nested hcs, ok_bind, unwind_nested]
    rfl
  have hfinish : (nested (placed m (b ++ "\n# x")) words 0 cs keyAllowed).finish
      = .ok (nested (.done m') words 0 ((freshAt m' cs).filter fun c => c.1 != 0) allowed) := by
    rw [finish, hskip, dropStale_nested hcs, ok_bind, unwind_nested,
      dropCandidate_nested (hcs.freshAt (Source.done m').mark)]
    rfl
  refine ⟨m', fun fuel => ?_⟩
  rw [run, hstep, hfinish]
  rfl

/-- The end of a document with a comment. -/
theorem leadsIf_comment (hb : ∀ d ∈ b, isSpace d = true) (hcs : Within bound cs) (m : Mark)
    (words : List Token) (keyAllowed : Bool) :
    LeadsIf (.char '\t' ∉ b) (fun r => ∃ m', ∀ fuel, r.run (fuel + 1) = ⟨words.reverse, .ok m'⟩)
      (nested (placed m (b ++ "\n# x")) words 0 cs keyAllowed) := by
  refine ⟨fun htab => ?_, fun htab => Fails.blanks hb (not_not.mp htab) hcs⟩
  obtain ⟨m', hend⟩ := run_comment hb htab hcs m words keyAllowed
  exact ⟨_, ⟨m', hend⟩, 0, Nat.le_refl _, fun _ => rfl⟩

end Schematic.Yaml.TokenReader
