import Schematic.Proofs.Text.Digit
import Schematic.Proofs.Yaml.Page

/-!
# Plain scalars are read back

A plain text is words with blanks between them. The reader takes a word up to the next blank, and
then the blanks, which are written as they stand or as the end of a line. It stops at the end of a
line after which the indentation is less, or at a colon that ends a key.
-/

namespace Schematic.Yaml

open Source

variable {m : Mark} {t u rest : Text} {w : List Char} {split : Bool} {indent column : Nat}

/-- A list of printable characters that are no spaces. -/
def IsWord (w : List Char) : Prop := ∀ c ∈ w, ' ' < c ∧ c ≤ '~'

/-! ### Words and blanks of a source -/

/-- A plain scalar stops in front of this text. -/
def StopsPiece (t : Text) : Prop :=
  ∀ m, plainPiece false (ofText m t) = ([], ofText m t)

lemma stopsPiece_space : StopsPiece (.char ' ' :: t) := fun _ => rfl

lemma stopsPiece_newLine (n : Nat) : StopsPiece (newLine n ++ t) := fun _ => rfl

lemma atBlank_char {c : Char} (h : ' ' < c ∧ c ≤ '~') :
    (ofText m (.char c :: t)).atBlank = false := by
  rw [ofText_char, atBlank, peek]
  simp [not_isSpaceOrTab_of_printable h.1, not_isBreak_of_printable
    (Char.not_lt.mp (Char.lt_asymm h.1)) h.2]

/-- A word is taken as a piece if no colon at its end could end a key. -/
lemma plainPiece_word (hw : IsWord w) (hcolon : w.getLast? ≠ some ':') (hstop : StopsPiece t)
    (m : Mark) : plainPiece false (ofText m (Text.ofChars w ++ t))
      = (w, ofText (m.after (Text.ofChars w)) t) := by
  induction w generalizing m with
  | nil => exact hstop m
  | cons c w ih =>
    obtain ⟨hc, hw⟩ := List.forall_mem_cons.mp hw
    have hprintable := not_isBreak_of_printable (Char.not_lt.mp (Char.lt_asymm hc.1)) hc.2
    -- Within the word a colon is followed by another character, and the word does not end in one.
    have hnext : (c == ':' && colonEnds false (ofText (m.next c) (Text.ofChars w ++ t)))
        = false := by
      cases w with
      | nil =>
        have hne : c ≠ ':' := by simpa using hcolon
        simp [hne]
      | cons d w =>
        have hd : (ofText (m.next c) (Text.ofChars (d :: w) ++ t)).atBlank = false :=
          atBlank_char (hw d List.mem_cons_self)
        rw [colonEnds, hd]
        simp
    have hlast : w.getLast? ≠ some ':' := by
      cases w with
      | nil => simp
      | cons d w => simpa using hcolon
    rw [Text.ofChars, List.map_cons, List.cons_append, ofText_char, plainPiece]
    rw [Text.ofChars] at hnext
    simp only [not_isSpaceOrTab_of_printable hc.1, hprintable, hnext, Bool.or_self, Bool.false_and,
      Bool.false_eq_true, if_false]
    rw [← Text.ofChars, ih hw hlast]
    rfl

lemma plainBreaks_spaces (n : Nat) (h : StartsWord t) :
    plainBreaks false (ofText m (Text.spaces n ++ t))
      = (some [], ofText (m.after (Text.spaces n)) t) := by
  induction n generalizing m with
  | zero =>
    obtain ⟨c, u, rfl, hlow, hhigh⟩ := h
    rw [spaces_zero, List.nil_append, ofText_char, plainBreaks]
    simp [ne_space_of_lt hlow, not_isBreak_of_printable (Char.not_lt.mp (Char.lt_asymm hlow)) hhigh]
  | succ n ih =>
    rw [spaces_succ, List.cons_append, ofText_char, plainBreaks]
    exact ih

/-- Blanks between two words are taken as they stand. -/
lemma plainBlanks_spaces (n : Nat) (h : StartsWord t) :
    plainBlanks (ofText m (Text.spaces n ++ t))
      = (List.replicate n ' ', false, ofText (m.after (Text.spaces n)) t) := by
  have hspan := span_spaces (m := m) (p := (· = ' ')) (by decide)
    (fun _ hc => by simpa using ne_space_of_lt hc) n h
  obtain ⟨c, u, rfl, hlow, hhigh⟩ := h
  rw [plainBlanks, hspan]
  simp [not_isBreak_of_printable (Char.not_lt.mp (Char.lt_asymm hlow)) hhigh]

/-- The end of a line between two words is taken for a blank. -/
lemma plainBlanks_newLine {n : Nat} (hn : 0 < n) (h : StartsWord t) :
    plainBlanks (ofText m (newLine n ++ t)) = ([' '], true, ofText (m.after (newLine n)) t) := by
  obtain ⟨n, rfl⟩ := Nat.exists_eq_succ_of_ne_zero hn.ne'
  have hbreaks := plainBreaks_spaces (m := (m.next '\n').next ' ') n h
  have hstart : plainBreaks true (ofText (m.next '\n') (Text.spaces (n + 1) ++ t))
      = (some [], ofText (((m.next '\n').next ' ').after (Text.spaces n)) t) := by
    rw [spaces_succ, List.cons_append, ofText_char, plainBreaks]
    exact hbreaks
  have hspan : (ofText m (newLine (n + 1) ++ t)).span (· = ' ')
      = ([], ofText m (newLine (n + 1) ++ t)) := rfl
  rw [plainBlanks, hspan, newLine, List.cons_append, ofText_char]
  simp only [hstart]
  rfl

/-! ### Words and blanks of a written text -/

abbrev asItStands (c : CodePoint) : Text := [c]

lemma foldWords_word {c : Char} (hc : ' ' < c) (before : Option CodePoint) :
    foldWords asItStands split indent before column (.char c :: t)
      = .char c :: foldWords asItStands split indent (some (.char c)) (column + 1) t := by
  have hline : c ≠ '\n' := by
    rintro rfl
    exact absurd hc (by decide)
  have hspace := ne_space_of_lt hc
  rw [foldWords, if_neg (by simpa using hline), if_neg fun h => hspace (by simpa using h.1)]
  rfl

/-- A word is folded as it stands, and the rest is folded after it. -/
lemma foldWords_append (split : Bool) (indent : Nat) (hw : IsWord w) (t : Text)
    (before : Option CodePoint) (column : Nat) :
    ∃ column', foldWords asItStands split indent before column (Text.ofChars w ++ t)
      = Text.ofChars w ++ foldWords asItStands split indent
          ((w.getLast?.map CodePoint.char).or before) column' t := by
  induction w generalizing before column with
  | nil => exact ⟨column, rfl⟩
  | cons c w ih =>
    obtain ⟨hc, hw⟩ := List.forall_mem_cons.mp hw
    obtain ⟨column', h⟩ := ih hw (some (.char c)) (column + 1)
    refine ⟨column', ?_⟩
    rw [Text.ofChars, List.map_cons, List.cons_append, foldWords_word hc.1, ← Text.ofChars, h]
    cases w with
    | nil => rfl
    | cons d w => simp [List.getLast?_cons]

/-- A blank after another one is never folded. -/
lemma foldWords_spaces (split : Bool) (indent : Nat) (t : Text) (n column : Nat) :
    ∃ column', foldWords asItStands split indent (some (.char ' ')) column (Text.spaces n ++ t)
      = Text.spaces n ++ foldWords asItStands split indent (some (.char ' ')) column' t := by
  induction n generalizing column with
  | zero => exact ⟨column, rfl⟩
  | succ n ih =>
    obtain ⟨column', h⟩ := ih (column + 1)
    refine ⟨column', ?_⟩
    have hgap : isWordGap (some (.char ' ')) (Text.spaces n ++ t) = false := by
      unfold isWordGap
      split <;> simp_all
    rw [spaces_succ, List.cons_append, foldWords, if_neg (by decide), hgap, if_neg (by simp)]
    exact congrArg (List.cons _) h

/-- What is written for the blanks between two words: the blanks, or the end of a line. -/
def IsSeparator (indent n : Nat) (s : Text) : Prop :=
  s = Text.spaces (n + 1) ∨ n = 0 ∧ s = newLine indent

/-- Blanks between words are written as they are, or as the end of a line. -/
lemma exists_separator (split : Bool) (indent : Nat) (t : Text) (before : Option CodePoint)
    (n column : Nat) : ∃ s column', IsSeparator indent n s ∧
      foldWords asItStands split indent before column (Text.spaces (n + 1) ++ t)
        = s ++ foldWords asItStands split indent (some (.char ' ')) column' t := by
  obtain ⟨column', h⟩ := foldWords_spaces split indent t n (column + 1)
  rw [spaces_succ, List.cons_append, foldWords, if_neg (by decide)]
  split
  case isTrue hfold =>
    cases n with
    | zero => exact ⟨newLine indent, indent, .inr ⟨rfl, rfl⟩, rfl⟩
    | succ n =>
      have hgap := hfold.2.2.2
      cases before <;> simp [spaces_succ, isWordGap] at hgap
  case isFalse =>
    exact ⟨Text.spaces (n + 1), column', .inl rfl, congrArg (List.cons _) h⟩

lemma startsWord_of_ne {c : CodePoint} (h : IsLine (c :: t)) (hc : c ≠ .char ' ') :
    StartsWord (c :: t) := by
  obtain ⟨d, rfl, hlow, hhigh⟩ := exists_char_of_within (isLine_cons.mp h).1
  exact ⟨d, t, rfl, Char.not_le.mp fun h => hc (by rw [Char.le_antisymm h hlow]), hhigh⟩

lemma exists_blanks (h : IsLine t) (hne : t ≠ []) (hlast : t.getLast? ≠ some (.char ' ')) :
    ∃ n v, t = Text.spaces n ++ v ∧ StartsWord v ∧ IsLine v ∧ v.getLast? ≠ some (.char ' ') ∧
      v.length ≤ t.length := by
  induction t with
  | nil => exact absurd rfl hne
  | cons c t ih =>
    by_cases hc : c = .char ' '
    · subst hc
      have htail : t ≠ [] := by
        rintro rfl
        simp at hlast
      have hlast' : t.getLast? ≠ some (.char ' ') := by
        rwa [List.getLast?_cons_of_ne_nil htail] at hlast
      obtain ⟨n, v, rfl, hv, hline, hlast, hlength⟩ := ih (isLine_cons.mp h).2 htail hlast'
      exact ⟨n + 1, v, rfl, hv, hline, hlast, Nat.le_succ_of_le hlength⟩
    · exact ⟨0, c :: t, rfl, startsWord_of_ne h hc, h, hlast, Nat.le_refl _⟩

/-- A text that starts with a word is that word, and blanks and further words after it. -/
lemma exists_word (h : IsLine t) (hstart : StartsWord t) (hlast : t.getLast? ≠ some (.char ' ')) :
    ∃ w u, t = Text.ofChars w ++ u ∧ w ≠ [] ∧ IsWord w ∧
      (u = [] ∨ ∃ n v, u = Text.spaces (n + 1) ++ v ∧ StartsWord v ∧ IsLine v ∧
        v.getLast? ≠ some (.char ' ') ∧ v.length < t.length) := by
  induction t with
  | nil =>
    obtain ⟨c, u, hu, -⟩ := hstart
    simp at hu
  | cons c t ih =>
    obtain ⟨c, v, hcons, hc⟩ := hstart
    rw [List.cons.injEq] at hcons
    obtain ⟨rfl, rfl⟩ := hcons
    have hw : IsWord [c] := List.forall_mem_singleton.mpr hc
    obtain ⟨-, hline⟩ := isLine_cons.mp h
    match t with
    | [] => exact ⟨[c], [], rfl, by simp, hw, .inl rfl⟩
    | d :: t =>
      have hlast' : (d :: t).getLast? ≠ some (.char ' ') := by simpa using hlast
      -- A blank ends the word here.
      by_cases hd : d = .char ' '
      · subst hd
        have htail : t ≠ [] := by
          rintro rfl
          simp at hlast'
        have hlast'' : t.getLast? ≠ some (.char ' ') := by
          rwa [List.getLast?_cons_of_ne_nil htail] at hlast'
        obtain ⟨n, v, rfl, hv, hvline, hvlast, hlength⟩ :=
          exists_blanks (isLine_cons.mp hline).2 htail hlast''
        refine ⟨[c], .char ' ' :: (Text.spaces n ++ v), rfl, by simp, hw,
          .inr ⟨n, v, rfl, hv, hvline, hvlast, ?_⟩⟩
        simp only [List.length_cons]
        omega
      · -- The word goes on with what the induction gives.
        obtain ⟨w, u, hwu, -, hword, hu⟩ := ih hline (startsWord_of_ne hline hd) hlast'
        refine ⟨c :: w, u, by rw [hwu]; rfl, by simp, List.forall_mem_cons.mpr ⟨hc, hword⟩, ?_⟩
        refine hu.imp_right ?_
        rintro ⟨n, v, hu, hv, hvline, hvlast, hlength⟩
        exact ⟨n, v, hu, hv, hvline, hvlast, Nat.lt_succ_of_lt hlength⟩

/-! ### Indicators -/

lemma isGap_char {c : Char} (h : ' ' < c ∧ c ≤ '~') : isGap (.char c) = false := by
  have hne : ∀ d ∈ "\x00 \t\r\n\x85\u2028\u2029".toList, ¬ (' ' < d ∧ d ≤ '~') :=
    forall_mem_of_all (by decide +kernel)
  rw [isGap, CodePoint.isOneOf, List.contains_eq_mem, decide_eq_false_iff_not]
  exact fun hmem => hne c hmem h

/-- Within a text that holds no indicator, no word ends in a colon and none starts with a number
sign. -/
lemma hasIndicator_word {afterGap : Bool} (hw : IsWord w) (hne : w ≠ [])
    (h : hasIndicator afterGap (Text.ofChars w ++ u) = false) (hgap : gapAhead u = true) :
    w.getLast? ≠ some ':' ∧ hasIndicator false u = false := by
  induction w generalizing afterGap with
  | nil => exact absurd rfl hne
  | cons c w ih =>
    obtain ⟨hc, hw⟩ := List.forall_mem_cons.mp hw
    rw [Text.ofChars, List.map_cons, List.cons_append, hasIndicator, isGap_char hc,
      Bool.or_eq_false_iff, Bool.or_eq_false_iff] at h
    cases w with
    | nil =>
      have hcolon : (CodePoint.char c == .char ':' && gapAhead u) = false := h.1.1
      rw [hgap, Bool.and_true, beq_eq_false_iff_ne] at hcolon
      exact ⟨by simpa using hcolon, h.2⟩
    | cons d w =>
      have ih := ih hw (by simp) h.2
      exact ⟨by simpa using ih.1, ih.2⟩

lemma hasIndicator_spaces {afterGap : Bool} (n : Nat)
    (h : hasIndicator afterGap (Text.spaces (n + 1) ++ t) = false) :
    hasIndicator true t = false := by
  induction n generalizing afterGap with
  | zero =>
    rw [spaces_succ, List.cons_append, hasIndicator, Bool.or_eq_false_iff] at h
    exact h.2
  | succ n ih =>
    rw [spaces_succ, List.cons_append, hasIndicator, Bool.or_eq_false_iff] at h
    exact ih h.2

/-! ### Scalars -/

/-- A plain scalar in a block that is indented by `indent - 1` ends in front of `rest`, and the
reader goes on after some blanks of it. -/
structure EndsPlain (indent : Int) (rest blanks next : Text) (broken : Bool) : Prop where
  stopsPiece : StopsPiece rest
  mark_eq : ∀ m, (ofText m rest).mark = m
  plainBlanks_eq : ∀ m, ∃ cs, plainBlanks (ofText m rest)
    = (cs, broken, ofText (m.after blanks) next) ∧
      (cs.isEmpty || ((ofText (m.after blanks) next).mark.column : Int) < indent) = true

variable {least : Int} {blanks next : Text} {broken : Bool}

lemma plainBlanks_separator {n : Nat} {s : Text} (hs : IsSeparator indent n s)
    (hindent : 0 < indent) (h : StartsWord t) :
    ∃ broken, plainBlanks (ofText m (s ++ t))
      = (List.replicate (n + 1) ' ', broken, ofText (m.after s) t) := by
  rcases hs with rfl | ⟨rfl, rfl⟩
  · exact ⟨false, plainBlanks_spaces (n + 1) h⟩
  · exact ⟨true, plainBlanks_newLine hindent h⟩

lemma column_after_separator {n : Nat} {s : Text} (hs : IsSeparator indent n s)
    (hleast : least ≤ indent) (hm : least ≤ m.column + 1) : least ≤ (m.after s).column := by
  rcases hs with rfl | ⟨rfl, rfl⟩
  · rw [Mark.after_of_isLine (isLine_spaces _), Text.spaces, List.length_replicate]
    push_cast
    omega
  · rw [Mark.column_after_newLine]
    exact hleast

lemma stopsPiece_separator {n : Nat} {s : Text} (hs : IsSeparator indent n s) :
    StopsPiece (s ++ t) := by
  rcases hs with rfl | ⟨rfl, rfl⟩
  · exact stopsPiece_space
  · exact stopsPiece_newLine indent

lemma isLine_ofChars (hw : IsWord w) : IsLine (Text.ofChars w) := by
  intro c hc
  obtain ⟨d, hd, rfl⟩ := List.mem_map.mp hc
  have hlow := Char.not_lt.mp (Char.lt_asymm (hw d hd).1)
  simp [CodePoint.within, hlow, (hw d hd).2]

lemma startsWord_foldWords (h : StartsWord t) (before : Option CodePoint) (column : Nat) :
    StartsWord (foldWords asItStands split indent before column t ++ rest) := by
  obtain ⟨c, u, rfl, hc⟩ := h
  rw [foldWords_word hc.1]
  exact ⟨c, _, rfl, hc⟩

lemma peek_ne_hash (hstart : StartsWord t) (hindicator : hasIndicator true t = false)
    (before : Option CodePoint) (column : Nat) :
    (ofText m (foldWords asItStands split indent before column t ++ rest)).peek ≠ some '#' := by
  obtain ⟨c, u, rfl, hc⟩ := hstart
  rw [hasIndicator, Bool.or_eq_false_iff, Bool.or_eq_false_iff, Bool.and_true, beq_eq_false_iff_ne]
    at hindicator
  rw [foldWords_word hc.1, List.cons_append, ofText_char, peek]
  simpa using hindicator.1.2

section

variable (fuel : Nat) (gap : List Char) {found : Plain} (hw : IsWord w) (hne : w ≠ [])
  (hcolon : w.getLast? ≠ some ':') (hhash : found.rest.peek ≠ some '#')

include hw hne hcolon hhash

/-- After the last word the reader stops. -/
lemma plainFrom_lastWord (hends : EndsPlain least rest blanks next broken)
    (hfound : found.rest = ofText m (Text.ofChars w ++ rest)) :
    plainFrom false least (fuel + 1) gap found
      = ⟨found.content ++ gap ++ w, m.after (Text.ofChars w), broken,
        ofText ((m.after (Text.ofChars w)).after blanks) next⟩ := by
  have hempty : w.isEmpty = false := by simpa using hne
  have hpiece := plainPiece_word hw hcolon hends.stopsPiece m
  obtain ⟨cs, hblanks, hend⟩ := hends.plainBlanks_eq (m.after (Text.ofChars w))
  rw [plainFrom, if_neg hhash, hfound, hpiece]
  simp only [hempty, hblanks, hends.mark_eq, Bool.not_false, Bool.true_and, Bool.false_eq_true,
    if_false, hend, if_true]

/-- After a word that another one follows, the reader goes on behind the blanks. -/
lemma plainFrom_word {n : Nat} {s v : Text} (hs : IsSeparator indent n s) (hindent : 0 < indent)
    (hleast : least ≤ indent) (hm : least ≤ m.column + 1) (hv : StartsWord v)
    (hfound : found.rest = ofText m (Text.ofChars w ++ (s ++ v))) :
    least ≤ ((m.after (Text.ofChars w)).after s).column ∧
    ∃ broken, plainFrom false least (fuel + 1) gap found = plainFrom false least fuel
      (List.replicate (n + 1) ' ') ⟨found.content ++ gap ++ w, m.after (Text.ofChars w), broken,
        ofText ((m.after (Text.ofChars w)).after s) v⟩ := by
  have hempty : w.isEmpty = false := by simpa using hne
  have hpiece := plainPiece_word hw hcolon (stopsPiece_separator hs (t := v)) m
  obtain ⟨broken, hblanks⟩ := plainBlanks_separator (m := m.after (Text.ofChars w)) hs hindent hv
  have hcolumn : least ≤ ((m.after (Text.ofChars w)).after s).column := by
    -- The next word is past the least column, on this line or on the next one.
    refine column_after_separator hs hleast ?_
    rw [Mark.after_of_isLine (isLine_ofChars hw)]
    push_cast
    omega
  have hmark : (ofText (m.after (Text.ofChars w)) (s ++ v)).mark = m.after (Text.ofChars w) := by
    rcases hs with rfl | ⟨rfl, rfl⟩ <;> rfl
  have hmark' : (ofText ((m.after (Text.ofChars w)).after s) v).mark
      = (m.after (Text.ofChars w)).after s := by
    obtain ⟨c, u, hu, -⟩ := hv
    rw [hu]
    rfl
  have hnot : ¬ (((m.after (Text.ofChars w)).after s).column : Int) < least := by omega
  refine ⟨hcolumn, broken, ?_⟩
  rw [plainFrom, if_neg hhash, hfound, hpiece]
  simp only [hempty, hblanks, hmark, hmark', hnot, Bool.false_eq_true, if_false]
  rw [if_neg (by simp [List.replicate_succ])]

end

/-- A plain text is read word by word. -/
theorem plainFrom_foldWords (hends : EndsPlain least rest blanks next broken) (hindent : 0 < indent)
    (hleast : least ≤ indent) (t : Text) (hline : IsLine t) (hstart : StartsWord t)
    (hlast : t.getLast? ≠ some (.char ' ')) (hindicator : hasIndicator true t = false)
    (before : Option CodePoint) (column fuel : Nat) (hfuel : t.length ≤ fuel)
    (gap : List Char) (found : Plain) (m : Mark) (hm : least ≤ m.column + 1)
    (hfound : found.rest = ofText m (foldWords asItStands split indent before column t ++ rest)) :
    ∃ cs, t = Text.ofChars cs ∧ plainFrom false least fuel gap found
      = ⟨found.content ++ gap ++ cs, m.after (foldWords asItStands split indent before column t),
          broken,
          ofText ((m.after (foldWords asItStands split indent before column t)).after blanks)
            next⟩ := by
  have hhash : found.rest.peek ≠ some '#' := hfound ▸ peek_ne_hash hstart hindicator before column
  obtain ⟨w, u, rfl, hne, hw, hu⟩ := exists_word hline hstart hlast
  have hgap : gapAhead u = true := by
    rcases hu with rfl | ⟨n, v, rfl, -⟩ <;> rfl
  obtain ⟨hcolon, hindicator'⟩ := hasIndicator_word hw hne hindicator hgap
  obtain ⟨column', hfold⟩ := foldWords_append split indent hw u before column
  obtain ⟨fuel, rfl⟩ : ∃ f, fuel = f + 1 := by
    have hpos := List.length_pos_iff.mpr hne
    simp only [List.length_append, Text.length_ofChars] at hfuel
    exact ⟨fuel - 1, by omega⟩
  rw [hfold, List.append_assoc] at hfound
  rw [hfold]
  rcases hu with rfl | ⟨n, v, rfl, hv, hvline, hvlast, hlength⟩
  · -- The last word is left, and the reader stops after it.
    refine ⟨w, List.append_nil _, ?_⟩
    rw [foldWords, List.nil_append] at hfound
    rw [foldWords, List.append_nil]
    exact plainFrom_lastWord fuel gap hw hne hcolon hhash hends hfound
  · -- The word is taken with the separator after it, and the induction reads the others.
    obtain ⟨s, column'', hs, hfold'⟩ :=
      exists_separator split indent v ((w.getLast?.map CodePoint.char).or before) n column'
    rw [hfold', List.append_assoc] at hfound
    obtain ⟨hcolumn, broken', hword⟩ :=
      plainFrom_word fuel gap hw hne hcolon hhash hs hindent hleast hm
        (startsWord_foldWords hv (some (.char ' ')) column'') hfound
    obtain ⟨cs, hcs, hread⟩ := plainFrom_foldWords hends hindent hleast v hvline hv hvlast
      (hasIndicator_spaces n hindicator') (some (.char ' ')) column'' fuel
      (Nat.le_of_lt_succ (Nat.lt_of_lt_of_le hlength hfuel)) (List.replicate (n + 1) ' ')
      ⟨found.content ++ gap ++ w, m.after (Text.ofChars w), broken', _⟩
      ((m.after (Text.ofChars w)).after s) (by omega) rfl
    refine ⟨w ++ (List.replicate (n + 1) ' ' ++ cs), ?_, ?_⟩
    · simp [hcs, Text.ofChars, Text.spaces]
    · rw [hword, hread, hfold']
      simp [Mark.after_append]
termination_by t.length

/-- A text that a line of a block starts with: no comment and no marker of a document. -/
structure StartsLine (t : Text) : Prop where
  startsWord : StartsWord t
  noComment : t.head? ≠ some (.char '#')
  noMarker : ∀ m, (ofText m t).atDocumentMarker = false

/-- What comes after the end of a line and an indentation: a further line, or the end of the
document. -/
def FollowsLine (n : Nat) (t : Text) : Prop := StartsLine t ∨ n = 0 ∧ t = []

lemma FollowsLine.mark_eq {n : Nat} (h : FollowsLine n t) (m : Mark) : (ofText m t).mark = m := by
  rcases h with h | ⟨-, rfl⟩
  · obtain ⟨c, u, rfl, -⟩ := h.startsWord
    rfl
  · rfl

lemma plainBreaks_line (n : Nat) (h : StartsLine t) :
    plainBreaks true (ofText m (Text.spaces n ++ t))
      = (some [], ofText (m.after (Text.spaces n)) t) := by
  cases n with
  | zero =>
    obtain ⟨c, u, rfl, hlow, hhigh⟩ := h.startsWord
    have hmarker := h.noMarker m
    rw [spaces_zero, List.nil_append]
    rw [ofText_char] at hmarker ⊢
    rw [plainBreaks, hmarker]
    simp [ne_space_of_lt hlow, not_isBreak_of_printable (Char.not_lt.mp (Char.lt_asymm hlow)) hhigh]
  | succ n =>
    rw [spaces_succ, List.cons_append, ofText_char, plainBreaks]
    exact plainBreaks_spaces n h.startsWord

/-- A plain scalar ends at the end of a line if the next line is indented less. -/
lemma endsPlain_newLine {n : Nat} (hn : (n : Int) < least) (h : FollowsLine n t) :
    EndsPlain least (newLine n ++ t) (newLine n) t true where
  stopsPiece := stopsPiece_newLine n
  mark_eq _ := rfl
  plainBlanks_eq m := by
    have hbreaks : plainBreaks true (ofText (m.next '\n') (Text.spaces n ++ t))
        = (some [], ofText ((m.next '\n').after (Text.spaces n)) t) := by
      rcases h with h | ⟨rfl, rfl⟩
      · exact plainBreaks_line n h
      · rfl
    have hmark : (ofText (m.after (newLine n)) t).mark.column = n := by
      rw [h.mark_eq, Mark.column_after_newLine]
    refine ⟨[' '], ?_, by simp [hmark, hn]⟩
    have hspan : (ofText m (newLine n ++ t)).span (· = ' ') = ([], ofText m (newLine n ++ t)) := rfl
    rw [plainBlanks, hspan, newLine, List.cons_append, ofText_char]
    simp only [hbreaks]
    rfl

/-- A plain scalar ends at a colon in front of a blank. -/
lemma endsPlain_colon (h : ∀ m, (ofText m t).atBlank = true) :
    EndsPlain least (.char ':' :: t) [] (.char ':' :: t) false where
  stopsPiece m := by
    rw [ofText_char, plainPiece, colonEnds, h]
    rfl
  mark_eq _ := rfl
  plainBlanks_eq _ := ⟨[], rfl, rfl⟩

/-- What the reader relies on in a plain text. -/
structure IsPlainText (t : Text) : Prop where
  isLine : IsLine t
  startsWord : StartsWord t
  last_ne : t.getLast? ≠ some (.char ' ')
  hasIndicator : hasIndicator true t = false

/-- Folding makes no text shorter. -/
lemma length_le_foldWords (t : Text) (before : Option CodePoint) (column : Nat) :
    t.length ≤ (foldWords asItStands split indent before column t).length := by
  induction t generalizing before column with
  | nil => exact Nat.zero_le _
  | cons c t ih =>
    rw [foldWords]
    split_ifs <;> simp only [List.length_append, List.length_cons]
    · have hend : 1 ≤ (foldedLineEnd indent before t).length := by
        simp only [foldedLineEnd, List.length_append]
        exact Nat.le_trans (Nat.le_add_left 1 _) (Nat.le_add_right _ _)
      have := ih (some c) indent
      omega
    · have := ih (some c) indent
      simp only [newLine, List.length_cons]
      omega
    · have := ih (some c) (column + [c].length)
      simp only [List.length_cons, List.length_nil] at this ⊢
      omega

lemma isPage_foldWords_plain (h : IsLine t) (before : Option CodePoint) (column : Nat) :
    IsPage (foldWords asItStands split indent before column t) :=
  isPage_foldWords (fun c hc => isPage_cons.mpr ⟨h.isPage c hc, isLine_nil.isPage⟩) before column

/-- A plain text is read back as it stands. -/
theorem plainScalar_foldWords (split : Bool) (hends : EndsPlain least rest blanks next broken)
    (hindent : 0 < indent) (hleast : least ≤ indent) (ht : IsPlainText t) (column : Nat) (m : Mark)
    (hm : least ≤ m.column + 1) :
    ∃ cs, t = Text.ofChars cs ∧
      plainScalar false least (ofText m (foldWords asItStands split indent none column t ++ rest))
      = ⟨cs, m.after (foldWords asItStands split indent none column t), broken,
          ofText ((m.after (foldWords asItStands split indent none column t)).after blanks)
            next⟩ := by
  have hlength : t.length ≤
      (ofText m (foldWords asItStands split indent none column t ++ rest)).length + 1 := by
    have hwritten : t.length ≤ (foldWords asItStands split indent none column t).length :=
      length_le_foldWords t none column
    rw [length_ofText_append (isPage_foldWords_plain ht.isLine none column)]
    omega
  obtain ⟨cs, hcs, hread⟩ := plainFrom_foldWords hends hindent hleast t ht.isLine ht.startsWord
    ht.last_ne ht.hasIndicator none column _ hlength [] ⟨[], _, false, _⟩ m hm rfl
  exact ⟨cs, hcs, hread⟩

/-- Without folding, a line is written as it stands. -/
lemma foldWords_eq_self (h : IsLine t) (before : Option CodePoint) (column : Nat) :
    foldWords asItStands false indent before column t = t := by
  induction t generalizing before column with
  | nil => rfl
  | cons c t ih =>
    obtain ⟨hc, ht⟩ := isLine_cons.mp h
    have hline : c ≠ .char '\n' := by
      rintro rfl
      exact absurd hc (by decide)
    rw [foldWords, if_neg hline, if_neg (by simp)]
    exact congrArg (List.cons c) (ih ht _ _)

/-- A text that may be written plain. -/
lemma isPlainText_of_allowsPlain (h : allowsPlain t = true) :
    IsPlainText t ∧ startsWithIndicator t = false ∧ Tag.ofPlain t = .text := by
  simp only [allowsPlain, Bool.and_eq_true, Bool.not_eq_true', beq_iff_eq, List.all_eq_true] at h
  obtain ⟨⟨⟨⟨htag, hordinary⟩, houter⟩, hstarts⟩, hindicator⟩ := h
  have hline : IsLine t := by
    intro c hc
    obtain ⟨hc, hend⟩ := hordinary c hc
    refine within_of_isOrdinary hc ?_
    rintro rfl
    exact absurd hend (by decide)
  rw [hasOuterBlank, Bool.or_eq_false_iff] at houter
  refine ⟨⟨hline, ?_, ?_, ?_⟩, hstarts, htag⟩
  · -- A text without outer blanks starts with no blank.
    cases t with
    | nil => exact absurd htag (by decide)
    | cons c t =>
      refine startsWord_of_ne hline ?_
      rintro rfl
      simp at houter
  · intro hlast
    rw [hlast] at houter
    simp at houter
  · -- A number sign in front would be an indicator that starts the text.
    cases t with
    | nil => rfl
    | cons c t =>
      rw [hasIndicator, Bool.and_false, Bool.or_false] at hindicator
      have hsign : (c == .char '#') = false := by
        rw [beq_eq_false_iff_ne]
        rintro rfl
        simp [startsWithIndicator, CodePoint.isOneOf] at hstarts
      rw [hasIndicator, hsign, Bool.false_and, Bool.or_false]
      exact hindicator

/-- A text that is written plain. -/
lemma isPlainText_of_style (h : ScalarStyle.of t = .plain) :
    IsPlainText t ∧ startsWithIndicator t = false ∧ Tag.ofPlain t = .text := by
  unfold ScalarStyle.of at h
  split_ifs at h with hplain
  exact isPlainText_of_allowsPlain hplain

end Schematic.Yaml
