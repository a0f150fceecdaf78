import Schematic.Proofs.Yaml.Flow.Seen

/-!
# Words and numbers of JSON documents

A word or a number of JSON stands plain in a flow collection. It goes up to the next blank or
indicator, and the blanks after it are taken with it.
-/

namespace Schematic.Yaml

open Source
open Json (isSpace isSpace_iff)

variable {m : Mark} {b t rest : Text} {w : List Char} {c : Char}

def isWordChar (c : Char) : Bool := c.isAlphanum || c == '-' || c == '+' || c == '.'

/-- A text of such characters that starts neither a comment nor a marker of a document. -/
structure IsFlowWord (t : Text) : Prop where
  chars : ∀ c ∈ t, ∃ d, c = .char d ∧ isWordChar d = true
  starts : ∃ c u, t = .char c :: u ∧ c ≠ '.' ∧ (c = '-' → ∃ d v, u = .char d :: v ∧ d ≠ '-')

lemma ne_of_isWordChar (hc : isWordChar c = true) {d : Char} (hd : isWordChar d = false) :
    c ≠ d := by
  rintro rfl
  rw [hd] at hc
  cases hc

/-- A character of a word is neither blank nor the end of a line. -/
lemma isBlank_of_isWordChar (hc : isWordChar c = true) :
    isSpaceOrTab c = false ∧ isBreak c = false := by
  have hne (d : Char) (hd : isWordChar d = false) : (c == d) = false :=
    beq_eq_false_iff_ne.mpr (ne_of_isWordChar hc hd)
  rw [isSpaceOrTab, isBreak, hne ' ' rfl, hne '\t' rfl, hne '\n' rfl, hne '\r' rfl, hne '\x85' rfl,
    hne '\u2028' rfl, hne '\u2029' rfl]
  exact ⟨rfl, rfl⟩

/-- A character that ends a word: a blank, or what comes after a value in a flow collection. -/
def isWordEnd (c : Char) : Bool := isSpace (.char c) || c == ',' || c == ']' || c == '\x7d'

/-! ### Blanks -/

lemma atDocumentMarker_eq_false {s : Source} (hdash : s.peek ≠ some '-')
    (hdot : s.peek ≠ some '.') :
    s.atDocumentMarker = false := by
  simp [atDocumentMarker, atTriple, hdash, hdot]

/-- The blanks that a plain scalar takes are spaces and line breaks, if no marker of a document
comes after them. -/
lemma exists_plainBreaks_eq {s : Source} (h : (s.skip isGapChar).atDocumentMarker = false)
    (atStart : Bool) :
    ∃ cs, plainBreaks atStart s = (some cs, s.skip isGapChar) := by
  -- By induction on what is left: blanks are passed over, and the ends of lines are counted.
  induction s generalizing atStart with
  | done m => exact ⟨[], by cases atStart <;> rfl⟩
  | more c m s ih =>
    cases hc : isGapChar c with
    | false =>
      rw [isGapChar, Bool.or_eq_false_iff, beq_eq_false_iff_ne] at hc
      have hskip : (Source.more c m s).skip isGapChar = .more c m s :=
        skip_eq_self (by simp [isGapChar, hc.1, hc.2])
      rw [hskip] at h ⊢
      refine ⟨[], ?_⟩
      rw [plainBreaks, h, Bool.and_false, if_neg (by decide), if_neg hc.1,
        if_neg (by simp [hc.2])]
    | true =>
      rw [skip_more hc] at h ⊢
      have hmarker : (Source.more c m s).atDocumentMarker = false := by
        -- A blank starts no marker of a document.
        refine atDocumentMarker_eq_false ?_ ?_ <;> rintro ⟨⟩ <;> cases hc
      rw [plainBreaks, hmarker, Bool.and_false, if_neg (by decide)]
      by_cases hspace : c = ' '
      · obtain ⟨cs, hcs⟩ := ih h false
        exact ⟨cs, by rw [if_pos hspace, hcs]⟩
      · have hbreak : isBreak c = true := by simpa [isGapChar, hspace] using hc
        obtain ⟨cs, hcs⟩ := ih h true
        exact ⟨breakChar c :: cs, by rw [if_neg hspace, if_pos hbreak, hcs]; rfl⟩

/-- Skipping less first makes no difference. -/
lemma skip_skip {p q : Char → Bool} (h : ∀ c, p c = true → q c = true) (s : Source) :
    (s.skip p).skip q = s.skip q := by
  induction s with
  | done m => rfl
  | more c m s ih =>
    cases hc : p c with
    | true => rw [skip_more hc, skip_more (h c hc), ih]
    | false => rw [skip_eq_self hc]

/-- What is left after skipping is not to be skipped. -/
lemma eq_false_of_skip_eq {p : Char → Bool} {s rest : Source} (h : s.skip p = .more c m rest) :
    p c = false := by
  induction s with
  | done m => cases h
  | more d n s ih =>
    cases hd : p d with
    | true => exact ih (by rwa [skip_more hd] at h)
    | false =>
      rw [skip_eq_self hd] at h
      cases h
      exact hd

/-- Blanks are passed over, and what they are folded to is told. -/
lemma exists_plainBlanks_eq {s : Source} (h : (s.skip isGapChar).atDocumentMarker = false) :
    ∃ cs broken, plainBlanks s = (cs, broken, s.skip isGapChar) := by
  have hskip := skip_skip (p := (· = ' ')) (q := isGapChar) (by simp +contextual [isGapChar]) s
  have hspan : s.span (· = ' ') = ((s.span (· = ' ')).1, s.skip (· = ' ')) := rfl
  rw [plainBlanks, hspan, ← hskip]
  rw [← hskip] at h
  cases hafter : s.skip (· = ' ') with
  | done m => exact ⟨_, false, rfl⟩
  | more c m rest =>
    rw [hafter] at h
    cases hbreak : isBreak c with
    | true =>
      have hgap : isGapChar c = true := by simp [isGapChar, hbreak]
      rw [skip_more hgap] at h ⊢
      obtain ⟨cs, hcs⟩ := exists_plainBreaks_eq h true
      exact ⟨folded c cs, true, by simp only [hbreak, if_true, hcs]; rfl⟩
    | false =>
      have hspace : c ≠ ' ' := by simpa using eq_false_of_skip_eq hafter
      have hgap : isGapChar c = false := by simp [isGapChar, hbreak, hspace]
      rw [skip_eq_self hgap]
      exact ⟨(s.span (· = ' ')).1, false, by simp only [hbreak, Bool.false_eq_true, if_false]⟩

/-! ### Words -/

/-- A character of a word is no indicator within flow collections. -/
lemma isFlowIndicator_of_isWordChar (hc : isWordChar c = true) :
    c ≠ ':' ∧ c ≠ '?' ∧ isFlowIndicator c = false := by
  have hne (d : Char) (hd : isWordChar d = false) : (c == d) = false :=
    beq_eq_false_iff_ne.mpr (ne_of_isWordChar hc hd)
  refine ⟨ne_of_isWordChar hc rfl, ne_of_isWordChar hc rfl, ?_⟩
  rw [isFlowIndicator, hne ',' rfl, hne '[' rfl, hne ']' rfl, hne '\x7b' rfl, hne '\x7d' rfl]
  rfl

lemma endsPiece_of_isWordEnd (hc : isWordEnd c = true) :
    (isSpaceOrTab c || isBreak c || isFlowIndicator c) = true := by
  rw [isWordEnd, Bool.or_eq_true, Bool.or_eq_true, Bool.or_eq_true, isSpace_iff] at hc
  simp only [CodePoint.char.injEq, beq_iff_eq] at hc
  rcases hc with (((rfl | rfl | rfl | rfl) | rfl) | rfl) | rfl <;> decide

/-- A word is taken as a piece up to its end. -/
lemma plainPiece_flowWord (hw : ∀ c ∈ w, isWordChar c = true) (hc : isWordEnd c = true)
    (rest : Text) (m : Mark) :
    plainPiece true (placed m (Text.ofChars w ++ .char c :: rest))
      = (w, placed (m.after (Text.ofChars w)) (.char c :: rest)) := by
  induction w generalizing m with
  | nil =>
    obtain ⟨s, hs⟩ := exists_placed_eq m c rest
    have hends := endsPiece_of_isWordEnd hc
    change plainPiece true (placed m (.char c :: rest)) = ([], placed m (.char c :: rest))
    rw [hs, plainPiece, if_pos]
    rcases Bool.or_eq_true_iff.mp hends with h | h <;> simp [h]
  | cons d w ih =>
    obtain ⟨hd, hw⟩ := List.forall_mem_cons.mp hw
    obtain ⟨hblank, hbreak⟩ := isBlank_of_isWordChar hd
    obtain ⟨hcolon, hquestion, hindicator⟩ := isFlowIndicator_of_isWordChar hd
    have hreturn : d ≠ '\r' := ne_of_isWordChar hd rfl
    rw [Text.ofChars, List.map_cons, List.cons_append, placed_char hreturn, plainPiece,
      ← Text.ofChars, ih hw, if_neg (by simp [hblank, hbreak, hcolon, hquestion, hindicator])]
    rfl

/-- A character that comes after a value and its blanks, or a tabulator among them. -/
def isAfterValue (c : Char) : Bool := c == '\t' || c == ',' || c == ']' || c == '\x7d'

lemma isAfterValue_iff : isAfterValue c = true ↔ c = '\t' ∨ c = ',' ∨ c = ']' ∨ c = '\x7d' := by
  simp [isAfterValue, or_assoc]

lemma isWordEnd_of_isAfterValue (hc : isAfterValue c = true) : isWordEnd c = true := by
  rcases isAfterValue_iff.mp hc with rfl | rfl | rfl | rfl <;> decide

lemma startsToken_of_isAfterValue (hc : isAfterValue c = true) (t : Text) :
    StartsToken (.char c :: t) := by
  refine ⟨c, t, rfl, ?_⟩
  rcases isAfterValue_iff.mp hc with rfl | rfl | rfl | rfl <;> decide

/-- A word ends at a blank or at what comes after the value. -/
lemma exists_isWordEnd (hb : ∀ d ∈ b, isSpace d = true) (hc : isAfterValue c = true) (rest : Text) :
    ∃ d u, b ++ .char c :: rest = .char d :: u ∧ isWordEnd d = true := by
  cases b with
  | nil => exact ⟨c, rest, rfl, isWordEnd_of_isAfterValue hc⟩
  | cons d b =>
    rcases isSpace_iff.mp (hb d List.mem_cons_self) with rfl | rfl | rfl | rfl <;>
      exact ⟨_, _, rfl, by decide⟩

/-- After a value a plain scalar does not go on. -/
lemma plainFrom_stop {found : Plain} (hfound : found.rest = placed m (.char c :: rest))
    (hc : isAfterValue c = true) (indent : Int) (fuel : Nat) (gap : List Char) :
    plainFrom true indent fuel gap found = found := by
  cases fuel with
  | zero => rfl
  | succ fuel =>
    have hpiece := plainPiece_flowWord (w := []) (List.forall_mem_nil _)
      (isWordEnd_of_isAfterValue hc) rest m
    change plainPiece true (placed m (.char c :: rest)) = ([], placed m (.char c :: rest)) at hpiece
    have hhash : (placed m (.char c :: rest)).peek ≠ some '#' := by
      rw [peek_placed]
      rintro ⟨⟩
      cases hc
    rw [plainFrom, hfound, if_neg hhash, hpiece]
    rfl

/-- A word is one of characters, and not empty. -/
lemma IsFlowWord.exists_chars (ht : IsFlowWord t) :
    ∃ c cs, t = Text.ofChars (c :: cs) ∧ ∀ d ∈ c :: cs, isWordChar d = true := by
  have hchars (t : Text) (ht : ∀ c ∈ t, ∃ d, c = .char d ∧ isWordChar d = true) :
      ∃ cs, t = Text.ofChars cs ∧ ∀ d ∈ cs, isWordChar d = true := by
    induction t with
    | nil => exact ⟨[], rfl, List.forall_mem_nil _⟩
    | cons c t ih =>
      obtain ⟨⟨d, rfl, hd⟩, htail⟩ := List.forall_mem_cons.mp ht
      obtain ⟨cs, rfl, hcs⟩ := ih htail
      exact ⟨d :: cs, rfl, List.forall_mem_cons.mpr ⟨hd, hcs⟩⟩
  obtain ⟨cs, hcs, hwords⟩ := hchars t ht.chars
  obtain ⟨c, u, rfl, -⟩ := ht.starts
  cases cs with
  | nil => cases hcs
  | cons d cs => exact ⟨d, cs, hcs, hwords⟩

/-- A word or a number is read with the blanks after it. -/
theorem plainScalar_flowWord (ht : IsFlowWord t) (hb : ∀ d ∈ b, isSpace d = true)
    (htab : .char '\t' ∉ b) (hc : isAfterValue c = true) (rest : Text) (indent : Int) (m : Mark) :
    ∃ cs stop broken m', t = Text.ofChars cs ∧
      plainScalar true indent (placed m (t ++ (b ++ .char c :: rest)))
        = ⟨cs, stop, broken, placed m' (.char c :: rest)⟩ := by
  obtain ⟨first, cs, rfl, hcs⟩ := ht.exists_chars
  obtain ⟨m', -, hskip⟩ := skip_blanks b hb htab (startsToken_of_isAfterValue hc rest)
    (m.after (Text.ofChars (first :: cs)))
  obtain ⟨d, u, hdu, hd⟩ := exists_isWordEnd hb hc rest
  have hpiece := plainPiece_flowWord hcs hd u m
  rw [← hdu] at hpiece
  have hmarker : (placed m' (.char c :: rest)).atDocumentMarker = false := by
    -- What ends a word is no marker either, so the blanks before it can be passed over.
    refine atDocumentMarker_eq_false ?_ ?_ <;> rw [peek_placed] <;> rintro ⟨⟩ <;> cases hc
  obtain ⟨blanks, broken, hblanks⟩ := exists_plainBlanks_eq (hskip ▸ hmarker)
  have hhash : (placed m (Text.ofChars (first :: cs) ++ (b ++ .char c :: rest))).peek
      ≠ some '#' := by
    change (placed m (.char first :: (Text.ofChars cs ++ (b ++ .char c :: rest)))).peek ≠ some '#'
    rw [peek_placed]
    simpa using ne_of_isWordChar (hcs first List.mem_cons_self) (d := '#') rfl
  refine ⟨first :: cs, (placed (m.after (Text.ofChars (first :: cs))) (b ++ .char c :: rest)).mark,
    broken, m', rfl, ?_⟩
  rw [plainScalar, plainFrom, if_neg hhash]
  simp only [hpiece, List.isEmpty_cons, Bool.false_eq_true, if_false, hblanks, hskip]
  split
  · simp
  · -- After the blanks no other piece of the scalar starts.
    rw [plainFrom_stop rfl hc]
    simp

/-! ### Words and numbers of JSON -/

/-- A word that starts with no point and no dash can be told by its characters. -/
lemma isFlowWord_ofChars (cs : List Char) (h : (c :: cs).all isWordChar = true) (hdot : c ≠ '.')
    (hdash : c ≠ '-') : IsFlowWord (Text.ofChars (c :: cs)) where
  chars d hd := by
    obtain ⟨e, he, rfl⟩ := List.mem_map.mp hd
    exact ⟨e, rfl, List.all_eq_true.mp h e he⟩
  starts := ⟨c, Text.ofChars cs, rfl, hdot, fun hc => absurd hc hdash⟩

lemma isFlowWord_null : IsFlowWord "null" :=
  isFlowWord_ofChars ['u', 'l', 'l'] (by decide) (by decide) (by decide)

lemma isFlowWord_true : IsFlowWord "true" :=
  isFlowWord_ofChars ['r', 'u', 'e'] (by decide) (by decide) (by decide)

lemma isFlowWord_false : IsFlowWord "false" :=
  isFlowWord_ofChars ['a', 'l', 's', 'e'] (by decide) (by decide) (by decide)

/-- A code point of a numeral is a character of a word. -/
lemma isWordChar_of_isNumeral {c : CodePoint} (hc : c.IsNumeral) :
    ∃ d, c = .char d ∧ isWordChar d = true := by
  rcases hc with hc | rfl | rfl | rfl | rfl | rfl
  · obtain ⟨d, hd, rfl⟩ := CodePoint.isDigit_iff.mp hc
    exact ⟨_, rfl, by interval_cases d <;> decide⟩
  all_goals exact ⟨_, rfl, by decide⟩

/-- A number is a word. -/
lemma isFlowWord_text (l : Json.Literal) : IsFlowWord l.text where
  chars c hc := isWordChar_of_isNumeral (isNumeral_text l c hc)
  starts := by
    obtain ⟨c, cs, hc, hbody⟩ := l.exists_body_eq
    obtain ⟨d, hd, rfl⟩ := CodePoint.isDigit_iff.mp hc
    rw [Json.Literal.text, hbody]
    have hdigit : Nat.digitChar d ≠ '.' ∧ Nat.digitChar d ≠ '-' := by interval_cases d <;> decide
    cases l.negative with
    | true => exact ⟨'-', _, rfl, by decide, fun _ => ⟨_, cs, rfl, hdigit.2⟩⟩
    | false => exact ⟨_, cs, rfl, hdigit.1, fun h => absurd h hdigit.2⟩

/-- A number is read to what is seen in it. -/
theorem scalarValue_number (l : Json.Literal) (hshort : l.IsShort) (m : Mark) :
    scalarValue (.ofPlain l.text) l.text m = .ok l.seen.toValue := by
  rw [Json.Literal.seen]
  split
  case isTrue hl => exact scalarValue_text hl hshort m
  case isFalse hl =>
    rw [ofPlain_of_not_isYaml hl]
    rfl

end Schematic.Yaml
