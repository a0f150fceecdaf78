import Schematic.Proofs.Json.Reading
import Schematic.Proofs.Yaml.Moves
import Schematic.Proofs.Yaml.Source

/-!
# Any text as a source

A document that was not written here may hold any character that a source allows, and its lines may
end in any way. `Source.placed m t` is a text from a place on, with each line end as one element.
Between the words of a flow collection the reader skips blanks of all kinds but the tabulator, in
front of which it stops.
-/

namespace Schematic.Yaml

open Json (isSpace isSpace_iff)

variable {m : Mark} {b t w rest : Text} {c : Char}

namespace Source

def placed (m : Mark) : Text → Source
  | [] => .done m
  | .char '\r' :: .char '\n' :: t => .more '\r' m (placed ⟨m.index + 2, m.line + 1, 0⟩ t)
  | .char c :: t => .more c m (placed (m.next c) t)
  | .lone _ :: t => placed m t

lemma placed_of_head? (h : c = '\r' → t.head? ≠ some (.char '\n')) :
    placed m (.char c :: t) = .more c m (placed (m.next c) t) := by
  rw [placed]
  rintro u rfl hc
  exact h hc rfl

lemma placed_char (hc : c ≠ '\r') : placed m (.char c :: t) = .more c m (placed (m.next c) t) :=
  placed_of_head? (absurd · hc)

/-- The source of a text starts with the first character of the text. -/
lemma exists_placed_eq (m : Mark) (c : Char) (t : Text) :
    ∃ s, placed m (.char c :: t) = .more c m s := by
  unfold placed
  split
  case h_1 heq => cases heq
  case h_2 heq =>
    cases heq
    exact ⟨_, rfl⟩
  case h_3 heq =>
    cases heq
    exact ⟨_, rfl⟩
  case h_4 heq => cases heq

@[simp] lemma peek_placed : (placed m (.char c :: t)).peek = some c := by
  obtain ⟨s, hs⟩ := exists_placed_eq m c t
  rw [hs, peek]

@[simp] lemma mark_placed : (placed m (.char c :: t)).mark = m := by
  obtain ⟨s, hs⟩ := exists_placed_eq m c t
  rw [hs, mark]

/-- A source of characters is one of their text. -/
lemma ofCharsAt_eq_placed (cs : List Char) (m : Mark) :
    ofCharsAt m cs = placed m (Text.ofChars cs) := by
  induction m, cs using ofCharsAt.induct with
  | case1 m => rfl
  | case2 m cs ih =>
    rw [ofCharsAt, ih]
    rfl
  | case3 m c cs h ih =>
    have hhead : c = '\r' → (Text.ofChars cs).head? ≠ some (.char '\n') := by
      rintro rfl hn
      cases cs with
      | nil => cases hn
      | cons d cs => exact h cs rfl (by rw [CodePoint.char.inj (Option.some.inj hn)])
    rw [ofCharsAt, ih]
    · exact (placed_of_head? hhead).symm
    · exact h

/-- A text is as long from one place on as from another. -/
lemma length_placed_eq (m m' : Mark) (t : Text) : (placed m t).length = (placed m' t).length := by
  fun_induction placed m t generalizing m' with
  | case1 m => rfl
  | case2 m t ih => exact congrArg (· + 1) (ih _)
  | case3 m c t h ih =>
    rw [placed_of_head?, length, length, ih]
    intro hc hn
    obtain ⟨u, rfl⟩ := List.head?_eq_some_iff.mp hn
    exact h u rfl hc
  | case4 m half t ih => exact ih m'

/-- A code point in front makes no source shorter. -/
lemma length_placed_le_cons (m m' : Mark) (c : CodePoint) (t : Text) :
    (placed m' t).length ≤ (placed m (c :: t)).length := by
  cases c with
  | lone half => exact (length_placed_eq m' m t).le
  | char c =>
    by_cases h : c = '\r' → t.head? ≠ some (.char '\n')
    · rw [placed_of_head? h, length]
      exact Nat.le_succ_of_le (length_placed_eq _ _ t).le
    · -- The two characters are one element, so that only the later one of them is left out.
      obtain ⟨rfl, hn⟩ := Classical.not_imp.mp h
      obtain ⟨u, rfl⟩ := List.head?_eq_some_iff.mp (not_not.mp hn)
      rw [placed_char (by decide), length, length_placed_eq _ ⟨m.index + 2, m.line + 1, 0⟩]
      exact Nat.le_refl _

/-- What comes later in a text is no longer than the whole. -/
lemma length_placed_le_append (m m' : Mark) (b t : Text) :
    (placed m' t).length ≤ (placed m (b ++ t)).length := by
  induction b with
  | nil => exact (length_placed_eq m' m t).le
  | cons c b ih => exact ih.trans (length_placed_le_cons m m c (b ++ t))

lemma length_placed_lt (hc : c ≠ '\r') (m m' : Mark) (b t : Text) :
    (placed m' t).length < (placed m (.char c :: (b ++ t))).length := by
  rw [placed_char hc, length]
  exact Nat.lt_succ_of_le (length_placed_le_append _ m' b t)

end Source

open Source

/-! ### Blanks -/

/-- No line ends in a text. -/
def StaysOnLine (t : Text) : Prop := ∀ c ∈ t, c ≠ .char '\n' ∧ c ≠ .char '\r'

instance (t : Text) : Decidable (StaysOnLine t) := inferInstanceAs (Decidable (∀ c ∈ t, _))

lemma staysOnLine_cons {c : CodePoint} :
    StaysOnLine (c :: t) ↔ (c ≠ .char '\n' ∧ c ≠ .char '\r') ∧ StaysOnLine t := List.forall_mem_cons

/-- A place comes after another one with a text between them: on the same line, or further down if a
line ends in the text. -/
structure IsAfter (t : Text) (m m' : Mark) : Prop where
  eq_of_staysOnLine : StaysOnLine t → m'.line = m.line ∧ m'.index = m.index + t.length
  line_lt : ¬ StaysOnLine t → m.line < m'.line

lemma IsAfter.line_le {m' : Mark} (h : IsAfter t m m') : m.line ≤ m'.line := by
  by_cases ht : StaysOnLine t
  · exact (h.eq_of_staysOnLine ht).1.ge
  · exact (h.line_lt ht).le

lemma isAfter_nil : IsAfter [] m m where
  eq_of_staysOnLine _ := ⟨rfl, rfl⟩
  line_lt h := absurd (List.forall_mem_nil _) h

/-- A space moves on by one column. -/
lemma IsAfter.space {m' : Mark} (h : IsAfter t (m.next ' ') m') :
    IsAfter (.char ' ' :: t) m m' where
  eq_of_staysOnLine ht := by
    obtain ⟨hline, hindex⟩ := h.eq_of_staysOnLine (staysOnLine_cons.mp ht).2
    exact ⟨hline, hindex.trans (Nat.succ_add_eq_add_succ m.index t.length)⟩
  line_lt ht := h.line_lt fun h => ht (staysOnLine_cons.mpr ⟨by decide, h⟩)

/-- A line ends in a text, and what comes after it is further down. -/
lemma IsAfter.lineEnd {m' m'' : Mark} {c : CodePoint} (h : IsAfter w m' m'')
    (hc : c = .char '\n' ∨ c = .char '\r') (hline : m.line < m'.line) : IsAfter (c :: t) m m'' where
  eq_of_staysOnLine ht := absurd hc (not_or.mpr (staysOnLine_cons.mp ht).1)
  line_lt _ := Nat.lt_of_lt_of_le hline h.line_le

/-- The character is a space or a line break. -/
def isGapChar (c : Char) : Bool := c == ' ' || isBreak c

/-- A text starts with a character that is neither a space nor a line break. -/
def StartsToken (t : Text) : Prop := ∃ c u, t = .char c :: u ∧ isGapChar c = false

lemma skip_more {p : Char → Bool} {s : Source} (hc : p c = true) :
    (Source.more c m s).skip p = s.skip p := by
  rw [skip, span, if_pos hc]
  rfl

lemma skip_eq_self {p : Char → Bool} {s : Source} (hc : p c = false) :
    (Source.more c m s).skip p = .more c m s := by
  rw [skip, span, if_neg (by simp [hc])]

lemma StartsToken.skip_eq (h : StartsToken t) (m : Mark) :
    (placed m t).skip isGapChar = placed m t := by
  obtain ⟨c, u, rfl, hc⟩ := h
  obtain ⟨s, hs⟩ := exists_placed_eq m c u
  rw [hs, skip_eq_self hc]

/-- Blanks that hold no tabulator are spaces and line breaks. -/
theorem skip_blanks (b : Text) (hb : ∀ c ∈ b, isSpace c = true) (htab : .char '\t' ∉ b)
    (ht : StartsToken t) (m : Mark) :
    ∃ m', IsAfter b m m' ∧ (placed m (b ++ t)).skip isGapChar = placed m' t := by
  match b with
  | [] => exact ⟨m, isAfter_nil, ht.skip_eq m⟩
  | c :: b =>
    obtain ⟨hc, hblanks⟩ := List.forall_mem_cons.mp hb
    rw [List.mem_cons, not_or] at htab
    rcases isSpace_iff.mp hc with rfl | rfl | rfl | rfl
    · obtain ⟨m', hm, hskip⟩ := skip_blanks b hblanks htab.2 ht (m.next ' ')
      rw [List.cons_append, placed_char (by decide), skip_more rfl]
      exact ⟨m', hm.space, hskip⟩
    · exact absurd rfl htab.1
    · obtain ⟨m', hm, hskip⟩ := skip_blanks b hblanks htab.2 ht (m.next '\n')
      rw [List.cons_append, placed_char (by decide), skip_more rfl]
      exact ⟨m', hm.lineEnd (.inl rfl) (Nat.lt_succ_self _), hskip⟩
    · by_cases hn : (b ++ t).head? = some (.char '\n')
      · cases b with
        | nil =>
          obtain ⟨c, u, rfl, hc⟩ := ht
          obtain rfl : c = '\n' := by simpa using hn
          cases hc
        | cons d b =>
          -- The two characters are one element of the source.
          obtain rfl : d = .char '\n' := Option.some.inj hn
          obtain ⟨m', hm, hskip⟩ := skip_blanks b (List.forall_mem_cons.mp hblanks).2
            (List.not_mem_of_not_mem_cons htab.2) ht ⟨m.index + 2, m.line + 1, 0⟩
          have hplaced : placed m (.char '\r' :: .char '\n' :: (b ++ t))
              = .more '\r' m (placed ⟨m.index + 2, m.line + 1, 0⟩ (b ++ t)) := rfl
          rw [List.cons_append, List.cons_append, hplaced, skip_more rfl]
          exact ⟨m', hm.lineEnd (.inr rfl) (Nat.lt_succ_self _), hskip⟩
      · obtain ⟨m', hm, hskip⟩ := skip_blanks b hblanks htab.2 ht (m.next '\r')
        rw [List.cons_append, placed_of_head? fun _ => hn, skip_more rfl]
        exact ⟨m', hm.lineEnd (.inr rfl) (Nat.lt_succ_self _), hskip⟩
termination_by b.length

/-- The next word comes after the spaces and line breaks, if no comment does. -/
lemma exists_nextWord_eq (broken : Bool) (s : Source) :
    ∃ broken', TokenReader.nextWord false broken s
      = TokenReader.nextWord false broken' (s.skip isGapChar) := by
  induction s generalizing broken with
  | done m => exact ⟨broken, rfl⟩
  | more c m s ih =>
    cases hc : isGapChar c with
    | false => exact ⟨broken, by rw [skip_eq_self hc]⟩
    | true =>
      rw [skip_more hc]
      cases hbreak : isBreak c with
      | true =>
        obtain ⟨broken', h⟩ := ih true
        exact ⟨broken', by rw [TokenReader.nextWord, if_pos hbreak, h]⟩
      | false =>
        obtain ⟨broken', h⟩ := ih broken
        have hspace : (c == ' ') = true := by rwa [isGapChar, hbreak, Bool.or_false] at hc
        refine ⟨broken', ?_⟩
        simp only [TokenReader.nextWord, hbreak, hspace, Bool.false_or, Bool.false_eq_true,
          if_false, if_true, h]

/-! ### Texts within a line -/

/-- A text of characters that end no line. -/
def IsInline (t : Text) : Prop := ∀ c ∈ t, ∃ d, c = .char d ∧ isBreak d = false

lemma isInline_cons {c : CodePoint} :
    IsInline (c :: t) ↔ (∃ d, c = .char d ∧ isBreak d = false) ∧ IsInline t := List.forall_mem_cons

lemma isInline_append : IsInline (t ++ w) ↔ IsInline t ∧ IsInline w := List.forall_mem_append

lemma IsInline.staysOnLine (h : IsInline t) : StaysOnLine t := by
  intro c hc
  obtain ⟨d, rfl, hd⟩ := h c hc
  constructor <;> rintro ⟨⟩ <;> cases hd

/-- A text without ends of lines stays in its line. -/
lemma IsInline.isAfter (h : IsInline t) (m : Mark) : IsAfter t m (m.after t) := by
  refine ⟨fun _ => ?_, fun hline => absurd h.staysOnLine hline⟩
  induction t generalizing m with
  | nil => exact ⟨rfl, rfl⟩
  | cons c t ih =>
    obtain ⟨⟨d, rfl, hd⟩, ht⟩ := isInline_cons.mp h
    obtain ⟨hline, hindex⟩ := ih ht (m.next d) ht.staysOnLine
    have hnext : (m.next d).line = m.line ∧ (m.next d).index = m.index + 1 := by
      rw [Mark.next, hd, if_neg (by decide)]
      split <;> exact ⟨rfl, rfl⟩
    rw [Mark.after_char, hline, hindex, List.length_cons]
    exact ⟨hnext.1, by omega⟩

/-- A text without ends of lines takes as much of a source as it is long. -/
lemma IsInline.length_placed_append (h : IsInline t) (m : Mark) (rest : Text) :
    (placed m (t ++ rest)).length = t.length + (placed (m.after t) rest).length := by
  induction t generalizing m with
  | nil => exact (Nat.zero_add _).symm
  | cons c t ih =>
    obtain ⟨⟨d, rfl, hd⟩, ht⟩ := isInline_cons.mp h
    have hreturn : d ≠ '\r' := by
      rintro rfl
      cases hd
    rw [List.cons_append, placed_char hreturn, length, ih ht, List.length_cons, Mark.after_char]
    omega

/-! ### Whole texts -/

/-- All code points of a text may stand in a document. -/
def IsAcceptableText (t : Text) : Prop := ∀ c ∈ t, isAcceptablePoint c = true

instance (t : Text) : Decidable (IsAcceptableText t) := inferInstanceAs (Decidable (∀ c ∈ t, _))

/-- A text of acceptable code points is read from its first place on. -/
theorem compose_eq_of_isAcceptableText (h : IsAcceptableText t)
    (hmark : t.head? ≠ some (.char '\uFEFF')) :
    compose t = Node.ofTokens? (.ofSource (.placed .origin t)) := by
  obtain ⟨cs, rfl, hcs⟩ := exists_chars_of_acceptable h
  have hfind : (Text.ofChars cs).find? (fun c => !isAcceptablePoint c) = none := by
    rw [List.find?_eq_none]
    intro c hc
    simp [h c hc]
  have hsource : Source.ofChars cs = .placed .origin (Text.ofChars cs) := by
    rw [Source.ofChars]
    · exact ofCharsAt_eq_placed cs .origin
    · rintro ds rfl
      exact hmark rfl
  rw [compose, acceptableChars, hfind, hcs, ← hsource]
  rfl

/-- A text with an unacceptable code point is refused. -/
theorem read_eq_error_of_not_isAcceptableText (h : ¬ IsAcceptableText t) :
    ∃ e, read t = .error e := by
  have hsome : (t.find? fun c => !isAcceptablePoint c).isSome = true := by
    rw [List.find?_isSome]
    simpa [IsAcceptableText] using h
  obtain ⟨c, hc⟩ := Option.isSome_iff_exists.mp hsome
  exact ⟨_, by rw [read, compose, acceptableChars, hc]; rfl⟩

end Schematic.Yaml
