import Mathlib.Tactic.Ring
import Schematic.Proofs.Fault
import Schematic.Proofs.Json.Text
import Schematic.Proofs.Yaml.Page

/-!
# Quoted scalars are read back

Between quotes a text is written piece by piece, and the reader takes each piece for the content
that it was written for. Blanks are taken in runs, so that a run may have to wait for the piece
after it; a folded line is read as the blank that it was folded at.

One case is read as something else. Far to the right an escape that is followed by a blank ends its
line and marks the blank as kept, and then the line is over its width again, so that it is ended a
second time: the mark and the end of the line after it are read as a backslash.
-/

namespace Schematic.Yaml

open Source

variable {double : Bool} {start m : Mark} {c : Char} {t w rest content : Text}

/-- What `w` says, up to and with its closing quote. -/
def ReadsQuoted (double : Bool) (start m : Mark) (w rest content : Text) : Prop :=
  ∀ fuel, w.length ≤ fuel →
    quotedBody double start fuel (ofText m (w ++ rest)) = .ok (content, ofText (m.after w) rest)

/-- In front of `tail` the reader takes `w` as a piece of its own, with a content. -/
def IsPiece (double : Bool) (start m : Mark) (w tail content : Text) : Prop :=
  ∀ fuel, quotedBody double start (fuel + 1) (ofText m (w ++ tail))
    = quotedBody double start fuel (ofText (m.after w) tail) >>=
      fun (t, after) => .ok (content ++ t, after)

/-- A piece in front of a quoted text makes a longer one. -/
lemma IsPiece.append {v : Text} (hpiece : IsPiece double start m v (w ++ rest) content)
    (hne : v ≠ []) (h : ReadsQuoted double start (m.after v) w rest t) :
    ReadsQuoted double start m (v ++ w) rest (content ++ t) := by
  intro fuel hfuel
  have hpos := List.length_pos_iff.mpr hne
  rw [List.length_append] at hfuel
  obtain ⟨fuel, rfl⟩ : ∃ f, fuel = f + 1 := ⟨fuel - 1, by omega⟩
  rw [List.append_assoc, hpiece fuel, h fuel (by omega), Mark.after_append]
  rfl

/-! ### Blanks and ends of lines -/

lemma not_isBreak_of_lt (hlow : ' ' < c) (hhigh : c ≤ '~') : isBreak c = false :=
  not_isBreak_of_printable (Char.not_lt.mp (Char.lt_asymm hlow)) hhigh

lemma quotedBreaks_word (atStart : Bool) (h : StartsWord t)
    (hmarker : (ofText m t).atDocumentMarker = false ∨ atStart = false) :
    quotedBreaks start atStart (ofText m t) = .ok ([], ofText m t) := by
  obtain ⟨c, u, rfl, hlow, hhigh⟩ := h
  have hcondition : (atStart && (ofText m (.char c :: u)).atDocumentMarker) = false := by
    rcases hmarker with hmarker | hmarker <;> simp only [hmarker, Bool.and_false, Bool.false_and]
  rw [ofText_char] at hcondition ⊢
  rw [quotedBreaks, hcondition]
  simp [not_isSpaceOrTab_of_printable hlow, not_isBreak_of_lt hlow hhigh]

lemma quotedBreaks_spaces (n : Nat) (h : StartsWord t) :
    quotedBreaks start false (ofText m (Text.spaces n ++ t))
      = .ok ([], ofText (m.after (Text.spaces n)) t) := by
  induction n generalizing m with
  | zero => exact quotedBreaks_word false h (.inr rfl)
  | succ n ih =>
    rw [Text.spaces, List.replicate_succ, List.cons_append, ofText_char, quotedBreaks]
    exact ih

/-- Line feeds and an indentation in front of a word. -/
lemma quotedBreaks_lines (start m : Mark) (j : Nat) {n : Nat} (hn : 0 < n) (h : StartsWord t) :
    quotedBreaks start true (ofText m (List.replicate j (.char '\n') ++ (Text.spaces n ++ t)))
      = .ok (List.replicate j '\n',
          ofText (m.after (List.replicate j (.char '\n') ++ Text.spaces n)) t) := by
  induction j generalizing m with
  | zero =>
    obtain ⟨n, rfl⟩ := Nat.exists_eq_succ_of_ne_zero hn.ne'
    rw [List.replicate_zero, List.nil_append, Text.spaces, List.replicate_succ, List.cons_append,
      ofText_char, quotedBreaks]
    exact quotedBreaks_spaces n h
  | succ j ih =>
    have ih := ih (m.next '\n')
    rw [List.replicate_succ, List.cons_append, ofText_char, quotedBreaks]
    simp only [← ofText_char, atDocumentMarker_newLine, Bool.and_false, Bool.false_eq_true,
      if_false]
    rw [ofText_char]
    simp only [ih]
    rfl

lemma quotedBody_blank (double : Bool) (start m : Mark) (t : Text) (hc : c = ' ' ∨ c = '\n')
    (fuel : Nat) :
    quotedBody double start (fuel + 1) (ofText m (.char c :: t))
      = quotedBlanks start (ofText m (.char c :: t)) >>= fun (piece, after) =>
          quotedBody double start fuel after >>= fun (t, after) => .ok (piece ++ t, after) := by
  rcases hc with rfl | rfl <;> cases double <;> rfl

/-- A run of blanks in front of a word is read as it stands. -/
lemma isPiece_spaces (n : Nat) (h : StartsWord t) :
    IsPiece double start m (Text.spaces (n + 1)) t (Text.spaces (n + 1)) := by
  intro fuel
  obtain ⟨c, u, hu, hlow, hhigh⟩ := id h
  have hspan := span_spaces (m := m) (p := isSpaceOrTab) rfl
    (fun _ => not_isSpaceOrTab_of_printable) (n + 1) h
  have hblanks : quotedBlanks start (ofText m (Text.spaces (n + 1) ++ t))
      = .ok (Text.spaces (n + 1), ofText (m.after (Text.spaces (n + 1))) t) := by
    rw [quotedBlanks, hspan, hu]
    simp only [ofText_char, not_isBreak_of_lt hlow hhigh, Bool.false_eq_true, if_false]
    simp [Text.ofChars, Text.spaces]
  have hbody := quotedBody_blank double start m (Text.spaces n ++ t) (.inl rfl) fuel
  rw [show CodePoint.char ' ' :: (Text.spaces n ++ t) = Text.spaces (n + 1) ++ t from rfl] at hbody
  rw [hbody, hblanks]
  rfl

/-- The ends of lines in front of a word: of several the first one is dropped. -/
lemma isPiece_lines (j : Nat) {n : Nat} (hn : 0 < n) (h : StartsWord t) :
    IsPiece double start m (List.replicate (j + 1) (.char '\n') ++ Text.spaces n) t
      (if j = 0 then [.char ' '] else List.replicate j (.char '\n')) := by
  intro fuel
  have hbreaks := quotedBreaks_lines start (m.next '\n') j hn h
  have hblanks : quotedBlanks start
      (ofText m (.char '\n' :: (List.replicate j (.char '\n') ++ (Text.spaces n ++ t))))
      = .ok (if j = 0 then [.char ' '] else List.replicate j (.char '\n'),
          ofText ((m.next '\n').after (List.replicate j (.char '\n') ++ Text.spaces n)) t) := by
    have hspan : (ofText m (.char '\n' :: (List.replicate j (.char '\n') ++
        (Text.spaces n ++ t)))).span isSpaceOrTab = ([], ofText m (.char '\n' ::
          (List.replicate j (.char '\n') ++ (Text.spaces n ++ t)))) := rfl
    have hfolded : Text.ofChars (folded '\n' (List.replicate j '\n'))
        = if j = 0 then [.char ' '] else List.replicate j (.char '\n') := by
      cases j <;> simp [folded, breakChar, Text.ofChars]
    rw [quotedBlanks, hspan, ofText_char]
    simp only [hbreaks, ok_bind, hfolded]
    rfl
  have hbody := quotedBody_blank double start m
    (List.replicate j (.char '\n') ++ (Text.spaces n ++ t)) (.inr rfl) fuel
  rw [hblanks] at hbody
  rw [List.replicate_succ, List.cons_append, List.cons_append, List.append_assoc]
  exact hbody

/-- What is held back of a run of blanks is read together with what comes after it. -/
lemma ReadsQuoted.spaces (n : Nat) (hstart : StartsWord (w ++ rest))
    (h : ReadsQuoted double start (m.after (Text.spaces n)) w rest content) :
    ReadsQuoted double start m (Text.spaces n ++ w) rest (Text.spaces n ++ content) := by
  cases n with
  | zero => exact h
  | succ n => exact (isPiece_spaces n hstart).append (by simp [Text.spaces]) h

/-! ### Code points between double quotes -/

lemma exists_of_isBare {c : CodePoint} (h : isBare c = true) :
    ∃ d, c = .char d ∧ ' ' ≤ d ∧ d ≤ '~' ∧ d ≠ '"' ∧ d ≠ '\\' := by
  rw [isBare, Bool.and_eq_true] at h
  obtain ⟨d, rfl, hlow, hhigh⟩ := exists_char_of_within h.1
  refine ⟨d, rfl, hlow, hhigh, ?_, ?_⟩ <;> rintro rfl <;> exact absurd h.2 (by decide)

/-- A character that has no meaning of its own between the quotes. -/
lemma isPiece_char (hlow : ' ' < c) (hhigh : c ≤ '~') (hsingle : double = false → c ≠ '\'')
    (hdouble : double = true → c ≠ '"' ∧ c ≠ '\\') :
    IsPiece double start m [.char c] t [.char c] := by
  intro fuel
  have hquote : ¬ (c = '\'' ∧ ¬ double = true) := fun h =>
    hsingle (Bool.eq_false_of_not_eq_true h.2) h.1
  rw [List.cons_append, List.nil_append, ofText_char, quotedBody, if_neg hquote,
    if_neg fun h => (hdouble h.2).1 h.1, if_neg fun h => (hdouble h.2).2 h.1,
    not_isSpaceOrTab_of_printable hlow, not_isBreak_of_lt hlow hhigh]
  rfl

lemma lookup_escapes : ∀ e ∈ escapeLetters, escapes.lookup e.2 = some e.1 := by decide

lemma quotedBody_escape (fuel : Nat) :
    quotedBody true start (fuel + 1) (ofText m (.char '\\' :: t))
      = quotedEscape start (ofText (m.next '\\') t) >>= fun (piece, after) =>
          quotedBody true start fuel after >>= fun (t, after) => .ok (piece ++ t, after) := rfl

/-- An escape by a letter. -/
lemma isPiece_letter {d : Char} (h : escapes.lookup c = some d) :
    IsPiece true start m [.char '\\', .char c] t [.char d] := by
  intro fuel
  have hescape : quotedEscape start (ofText (m.next '\\') (.char c :: t))
      = .ok ([.char d], ofText ((m.next '\\').next c) t) := by
    rw [ofText_char, quotedEscape]
    simp only [h]
  rw [List.cons_append, List.cons_append, List.nil_append, quotedBody_escape, hescape]
  rfl

/-- The end of a line after a backslash joins the line to the next word. -/
lemma isPiece_join {n : Nat} (hn : 0 < n) (h : StartsWord t) :
    IsPiece true start m (.char '\\' :: newLine n) t [] := by
  intro fuel
  have hbreaks := quotedBreaks_lines start ((m.next '\\').next '\n') 0 hn h
  rw [List.replicate_zero, List.nil_append, List.nil_append] at hbreaks
  have hescape : quotedEscape start (ofText (m.next '\\') (newLine n ++ t))
      = .ok ([], ofText ((m.next '\\').after (newLine n)) t) := by
    have hlookup : escapes.lookup '\n' = none := by decide
    rw [newLine, List.cons_append, ofText_char, quotedEscape]
    simp only [hlookup, hbreaks, ok_bind]
    rfl
  rw [List.cons_append, quotedBody_escape, hescape]
  rfl

/-! ### Escapes by number -/

lemma hexNumber_add (i j n : Nat) (s : Source) :
    hexNumber (i + j) n s = hexNumber i n s >>= fun (n, s) => hexNumber j n s := by
  induction i generalizing n s with
  | zero => rw [Nat.zero_add]; rfl
  | succ i ih =>
    cases s with
    | done m => rw [Nat.succ_add]; rfl
    | more c m rest =>
      rw [Nat.succ_add, hexNumber, hexNumber]
      cases (CodePoint.char c).hexDigit? with
      | none => rfl
      | some d => exact ih _ _

lemma hexDigit?_toUpper {d : Nat} (h : d < 16) :
    (CodePoint.char d.digitChar.toUpper).hexDigit? = some d := by
  interval_cases d <;> rfl

/-- The digits of a number are read back after those of another number. -/
lemma hexNumber_hexUpper {count : Nat} (hcount : 0 < count) (a n : Nat) (h : n < 16 ^ count)
    (m : Mark) : hexNumber count a (ofText m (Text.hexUpper count n ++ t))
      = .ok (a * 16 ^ count + n, ofText (m.after (Text.hexUpper count n)) t) := by
  induction count, hcount using Nat.le_induction generalizing n t with
  | base =>
    have hdigit := hexDigit?_toUpper h
    have hdigits : Nat.toDigits 16 n = [n.digitChar] := Nat.toDigits_of_lt_base h
    have hwritten : Text.hexUpper 1 n = [.char n.digitChar.toUpper] := by
      simp [Text.hexUpper, hdigits, Text.ofChars]
    rw [hwritten, List.cons_append, List.nil_append, ofText_char, hexNumber]
    simp only [hdigit]
    rfl
  | succ count hcount ih =>
    have hdigit := hexDigit?_toUpper (Nat.mod_lt n (by decide : 0 < 16))
    have hlow : n / 16 < 16 ^ count := Nat.div_lt_of_lt_mul (by rwa [Nat.pow_succ, mul_comm] at h)
    rw [Text.hexUpper_succ hcount, List.append_assoc, hexNumber_add, ih _ hlow]
    simp only [ok_bind, List.cons_append, List.nil_append, ofText_char, hexNumber, hdigit,
      Except.ok.injEq, Prod.mk.injEq, Mark.after_append]
    refine ⟨?_, rfl⟩
    rw [Nat.pow_succ]
    have := Nat.div_add_mod n 16
    ring_nf
    omega

/-- An escape by a letter for its length and the number of a code point. -/
lemma isPiece_number {count : Nat} {p : CodePoint} (hcount : hexEscapeLength? c = some count)
    (hletter : escapes.lookup c = none) (hpos : 0 < count) (h : p.value < 16 ^ count) :
    IsPiece true start m (.char '\\' :: .char c :: Text.hexUpper count p.value) t [p] := by
  intro fuel
  have hnumber := hexNumber_hexUpper (t := t) hpos 0 p.value h ((m.next '\\').next c)
  rw [Nat.zero_mul, Nat.zero_add] at hnumber
  have hescape : quotedEscape start
      (ofText (m.next '\\') (.char c :: (Text.hexUpper count p.value ++ t)))
      = .ok ([p], ofText (((m.next '\\').next c).after (Text.hexUpper count p.value)) t) := by
    rw [ofText_char, quotedEscape]
    simp only [hletter, hcount, hnumber, escapedPoint, CodePoint.ofNat?_value]
    rfl
  rw [List.cons_append, List.cons_append, quotedBody_escape, hescape]
  rfl

/-- The escape of a code point is read as the code point. -/
lemma isPiece_escapeOf (p : CodePoint) : IsPiece true start m (escapeOf p) t [p] := by
  unfold escapeOf
  split
  case h_1 e letter hfind =>
    have hmem := List.mem_of_find?_eq_some hfind
    have hp : p = .char e := by simpa using List.find?_some hfind
    rw [hp]
    exact isPiece_letter (lookup_escapes _ hmem)
  case h_2 hfind =>
    split_ifs with hbyte hplane
    · exact isPiece_number rfl (by decide) (by decide) (Nat.lt_succ_of_le hbyte)
    · exact isPiece_number rfl (by decide) (by decide) (Nat.lt_succ_of_le hplane)
    · exact isPiece_number rfl (by decide) (by decide) (value_lt p)

lemma escapeOf_eq_cons (p : CodePoint) : ∃ t, escapeOf p = .char '\\' :: t := by
  unfold escapeOf
  split
  · exact ⟨_, rfl⟩
  · split_ifs <;> exact ⟨_, rfl⟩

/-! ### Double quotes -/

/-- An escape, a blank and something more follow one another in a text. -/
def escapesBlank : Text → Bool
  | c :: d :: e :: rest =>
    (!isBare c && d == .char ' ') || escapesBlank (d :: e :: rest)
  | _ => false

/-- The text with a backslash and a blank put in between an escape and a blank that is not the last
code point. -/
def parted : Text → Text
  | c :: d :: e :: rest =>
    if !isBare c && d == .char ' ' then
      c :: .char '\\' :: .char ' ' :: parted (d :: e :: rest)
    else c :: parted (d :: e :: rest)
  | t => t

/-- The lines of a text between double quotes start past the width of a line. -/
def isFarRight (split : Bool) (indent : Nat) : Bool := split && lineWidth ≤ indent

/-- What is read of a text after its first code point. -/
def readTail (split : Bool) (indent : Nat) (t : Text) : Text :=
  if isFarRight split indent then parted t else t

variable {split : Bool} {indent : Nat}

lemma readsQuoted_close : ReadsQuoted true start m [.char '"'] rest [] := by
  intro fuel hfuel
  obtain ⟨fuel, rfl⟩ : ∃ f, fuel = f + 1 := ⟨fuel - 1, by simp at hfuel; omega⟩
  rfl

lemma startsWord_backslash : StartsWord (.char '\\' :: t) := ⟨'\\', t, rfl, by decide, by decide⟩

lemma body_bare {c : CodePoint} (h : isBare c = true) (isFirst afterEscape : Bool) (column : Nat)
    (t : Text) : doubleQuotedBody split indent isFirst afterEscape column (c :: t) =
      if (split && !isFirst && !t.isEmpty) ∧ (c = .char ' ' ∨ afterEscape) ∧ lineWidth < column then
        joinedLine indent (c :: t) ++ c :: doubleQuotedBody split indent false false
          (indent + (if c = .char ' ' then 2 else 1)) t
      else c :: doubleQuotedBody split indent false false (column + 1) t := by
  rw [doubleQuotedBody]
  exact if_pos h

lemma body_escape {c : CodePoint} (h : isBare c = false) (isFirst afterEscape : Bool)
    (column : Nat) (t : Text) : doubleQuotedBody split indent isFirst afterEscape column (c :: t) =
      if (split && !isFirst && !t.isEmpty) ∧ lineWidth + 1 < column + (escapeOf c).length then
        escapeOf c ++ joinedLine indent t ++ doubleQuotedBody split indent false true
          (indent + (if t.head? = some (.char ' ') then 1 else 0)) t
      else escapeOf c ++
        doubleQuotedBody split indent false true (column + (escapeOf c).length) t := by
  rw [doubleQuotedBody]
  exact if_neg (by simp [h])

lemma joinedLine_of_ne (h : t.head? ≠ some (.char ' ')) :
    joinedLine indent t = .char '\\' :: newLine indent := by
  rw [joinedLine, if_neg h]
  exact List.append_nil _

lemma joinedLine_blank :
    joinedLine indent (.char ' ' :: t) = .char '\\' :: newLine indent ++ [.char '\\'] := rfl

lemma startsWord_body {isFirst afterEscape : Bool} {column : Nat}
    (h : t.head? ≠ some (.char ' ')) :
    StartsWord
      (doubleQuotedBody split indent isFirst afterEscape column t ++ .char '"' :: rest) := by
  cases t with
  | nil => exact ⟨'"', rest, rfl, by decide, by decide⟩
  | cons c t =>
    cases hbare : isBare c with
    | true =>
      rw [body_bare hbare]
      split
      · exact startsWord_backslash
      · obtain ⟨d, rfl, hlow, hhigh, -⟩ := exists_of_isBare hbare
        have hlt : ' ' < d := Char.not_le.mp fun hd =>
          h (by rw [Char.le_antisymm hd hlow]; rfl)
        exact ⟨d, _, rfl, hlt, hhigh⟩
    | false =>
      obtain ⟨u, hu⟩ := escapeOf_eq_cons c
      rw [body_escape hbare, hu]
      split <;> exact startsWord_backslash

lemma readTail_nil : readTail split indent [] = [] := by
  rw [readTail]
  split <;> rfl

/-- Nothing is put in where no blank follows an escape, or nothing follows the blank. -/
lemma readTail_cons {c : CodePoint} (h : isFarRight split indent = true → isBare c = true ∨
    t.head? ≠ some (.char ' ') ∨ t.length ≤ 1) :
    readTail split indent (c :: t) = c :: readTail split indent t := by
  rw [readTail, readTail]
  split
  case isFalse => rfl
  case isTrue hfar =>
    match t with
    | [] | [_] => rfl
    | d :: e :: u =>
      rw [parted, if_neg]
      rcases h hfar with h | h | h
      · simp [h]
      · simpa using fun _ => by simpa using h
      · simp at h

/-- An escape in front of a blank that is far to the right is parted from it. -/
lemma readTail_parted {c d : CodePoint} (hc : isBare c = false)
    (hfar : isFarRight split indent = true) :
    readTail split indent (c :: .char ' ' :: d :: t)
      = c :: .char '\\' :: .char ' ' :: .char ' ' :: readTail split indent (d :: t) := by
  have hblank : readTail split indent (.char ' ' :: d :: t)
      = .char ' ' :: readTail split indent (d :: t) := readTail_cons fun _ => .inl rfl
  rw [← hblank]
  simp [readTail, hfar, parted, hc]

lemma ReadsQuoted.join (hindent : 0 < indent) (hstart : StartsWord (w ++ rest))
    (h : ∀ m, ReadsQuoted true start m w rest content) (m : Mark) :
    ReadsQuoted true start m (.char '\\' :: newLine indent ++ w) rest content :=
  (isPiece_join hindent hstart).append (by simp) (h _)

lemma ReadsQuoted.letter {d : Char} (hd : escapes.lookup c = some d)
    (h : ∀ m, ReadsQuoted true start m w rest content) (m : Mark) :
    ReadsQuoted true start m ([.char '\\', .char c] ++ w) rest (.char d :: content) :=
  (isPiece_letter hd).append (by simp) (h _)

lemma ReadsQuoted.escape (p : CodePoint) (h : ∀ m, ReadsQuoted true start m w rest content)
    (m : Mark) : ReadsQuoted true start m (escapeOf p ++ w) rest (p :: content) :=
  (isPiece_escapeOf p).append (by obtain ⟨u, hu⟩ := escapeOf_eq_cons p; simp [hu]) (h _)

lemma ReadsQuoted.char (hlow : ' ' < c) (hhigh : c ≤ '~')
    (hdouble : c ≠ '"' ∧ c ≠ '\\') (h : ∀ m, ReadsQuoted true start m w rest content) (m : Mark) :
    ReadsQuoted true start m ([.char c] ++ w) rest (.char c :: content) :=
  (isPiece_char hlow hhigh (fun h => absurd h (by decide)) fun _ => hdouble).append (by simp) (h _)

lemma ReadsQuoted.line (hindent : 0 < indent) (hstart : StartsWord (w ++ rest))
    (h : ∀ m, ReadsQuoted double start m w rest content) (m : Mark) :
    ReadsQuoted double start m (newLine indent ++ w) rest (.char ' ' :: content) :=
  (isPiece_lines 0 hindent hstart).append (by simp) (h _)

lemma two_le_length_escapeOf (p : CodePoint) : 2 ≤ (escapeOf p).length := by
  unfold escapeOf
  split
  · simp [Text.ofChars]
  · split_ifs <;> simp [Text.ofString]

lemma isFarRight_iff : isFarRight split indent = true ↔ split = true ∧ lineWidth ≤ indent := by
  simp [isFarRight]

/-- A text after its first code point is read between double quotes, wherever it starts and with a
run of blanks that is held back. -/
def ReadsBody (split : Bool) (indent : Nat) (start : Mark) (rest t : Text) : Prop :=
  ∀ (afterEscape : Bool) {column : Nat}, indent ≤ column → ∀ (k : Nat) (m : Mark),
    ReadsQuoted true start m
      (Text.spaces k ++ (doubleQuotedBody split indent false afterEscape column t ++ [.char '"']))
      rest (Text.spaces k ++ readTail split indent t)

/-- The text is read with no blank held back. -/
lemma ReadsBody.reads (h : ReadsBody split indent start rest t) (afterEscape : Bool) {column : Nat}
    (hcolumn : indent ≤ column) (m : Mark) :
    ReadsQuoted true start m
      (doubleQuotedBody split indent false afterEscape column t ++ [.char '"'])
      rest (readTail split indent t) :=
  h afterEscape hcolumn 0 m

lemma readsBody_nil : ReadsBody split indent start rest [] := by
  intro _ _ _ k m
  rw [readTail_nil]
  exact ReadsQuoted.spaces k ⟨'"', rest, rfl, by decide, by decide⟩ readsQuoted_close

/-- A blank is kept at the end of a line by a backslash on each side, or is held back. -/
lemma ReadsBody.blank (hindent : 0 < indent) (h : ReadsBody split indent start rest t) :
    ReadsBody split indent start rest (.char ' ' :: t) := by
  intro afterEscape column hcolumn k m
  rw [body_bare rfl, readTail_cons fun _ => .inl rfl]
  split
  · have hkept := ReadsQuoted.join hindent startsWord_backslash
      (ReadsQuoted.letter (c := ' ') rfl (h.reads false (Nat.le_add_right indent 2)))
    have hread := ReadsQuoted.spaces k startsWord_backslash (hkept (m.after (Text.spaces k)))
    simpa [joinedLine_blank] using hread
  · have hread := h false (Nat.le_succ_of_le hcolumn) (k + 1) m
    simpa [Text.spaces, List.replicate_succ'] using hread

/-- A character that stands for itself is read in front of what is read. -/
lemma ReadsBody.bare (hindent : 0 < indent) {c : CodePoint} (hbare : isBare c = true)
    (h : ReadsBody split indent start rest t) : ReadsBody split indent start rest (c :: t) := by
  obtain ⟨d, rfl, hlow, hhigh, hd⟩ := exists_of_isBare hbare
  by_cases hspace : d = ' '
  · rw [hspace]
    exact h.blank hindent
  have hlt : ' ' < d := Char.not_le.mp fun h => hspace (Char.le_antisymm h hlow)
  have hne : (CodePoint.char d :: t).head? ≠ some (.char ' ') := by simpa using hspace
  intro afterEscape column hcolumn k m
  refine ReadsQuoted.spaces k ?_ ?_
  · have hstart : StartsWord (doubleQuotedBody split indent false afterEscape column
        (.char d :: t) ++ .char '"' :: rest) := startsWord_body hne
    simpa using hstart
  · rw [body_bare hbare, readTail_cons fun _ => .inl hbare]
    split
    · have hread := ReadsQuoted.join hindent ⟨d, _, rfl, hlt, hhigh⟩
        (ReadsQuoted.char hlt hhigh hd (h.reads false (Nat.le_add_right indent 1)))
      simpa [joinedLine_of_ne hne, hspace] using hread (m.after (Text.spaces k))
    · have hread := ReadsQuoted.char hlt hhigh hd (h.reads false (Nat.le_succ_of_le hcolumn))
      simpa using hread (m.after (Text.spaces k))

/-- The line ends between an escape and a blank, so that the blank is kept by a backslash. If the
line ends a second time behind that, the marks of both ends are read as a backslash and a blank. -/
lemma ReadsBody.escape_blank (hindent : 0 < indent) {c : CodePoint} (hbare : isBare c = false)
    (hsplit : split = true) (h : ReadsBody split indent start rest t) (m : Mark) :
    ReadsQuoted true start m
      (escapeOf c ++ joinedLine indent (.char ' ' :: t) ++
        (doubleQuotedBody split indent false true (indent + 1) (.char ' ' :: t) ++ [.char '"']))
      rest (readTail split indent (c :: .char ' ' :: t)) := by
  have hkept := ReadsQuoted.letter (c := ' ') rfl (h.reads false (Nat.le_add_right indent 2))
  rw [joinedLine_blank, body_bare rfl]
  split
  case isTrue hagain =>
    -- The line is joined twice, so the blank after the escape is read as one too many.
    have hwrong := ReadsQuoted.escape c (ReadsQuoted.join hindent startsWord_backslash
      (ReadsQuoted.letter (c := '\\') rfl
        (ReadsQuoted.line hindent startsWord_backslash hkept))) m
    cases t with
    | nil => simp at hagain
    | cons e t =>
      rw [readTail_parted hbare (isFarRight_iff.mpr ⟨hsplit, by omega⟩)]
      simpa [joinedLine_blank] using hwrong
  case isFalse hagain =>
    -- The line is joined once and the blank is kept by its backslash, which the tail allows for.
    have hread := ReadsQuoted.escape c (ReadsQuoted.join hindent startsWord_backslash hkept) m
    rw [readTail_cons, readTail_cons fun _ => .inl rfl]
    · simpa using hread
    · intro hfar
      refine .inr (.inr ?_)
      cases t with
      | nil => exact Nat.le_refl 1
      | cons e t =>
        have hwide := (isFarRight_iff.mp hfar).2
        exact absurd ⟨by simp [hsplit], .inl rfl, by omega⟩ hagain

/-- An escape is read in front of what is read, whatever line it ends. -/
lemma ReadsBody.escape (hindent : 0 < indent) {c : CodePoint} (hbare : isBare c = false)
    (h : ReadsBody split indent start rest t)
    (hblank : ∀ u, t = .char ' ' :: u → ReadsBody split indent start rest u) :
    ReadsBody split indent start rest (c :: t) := by
  intro afterEscape column hcolumn k m
  have hlength := two_le_length_escapeOf c
  refine ReadsQuoted.spaces k ?_ ?_
  · obtain ⟨u, hu⟩ := escapeOf_eq_cons c
    rw [body_escape hbare, hu]
    split <;> exact startsWord_backslash
  generalize m.after (Text.spaces k) = m
  rw [body_escape hbare]
  split
  case isFalse hfold =>
    -- The escape is not followed by a joined line, so the tail is what it was.
    rw [readTail_cons]
    · simpa using ReadsQuoted.escape c (h.reads true (by omega)) m
    · intro hfar
      obtain ⟨hsplit, hwide⟩ := isFarRight_iff.mp hfar
      refine .inr (.inr ?_)
      cases t with
      | nil => exact Nat.zero_le 1
      | cons d t => exact absurd ⟨by simp [hsplit], by omega⟩ hfold
  case isTrue hfold =>
    -- A line is joined after the escape, and a blank at its start needs a backslash.
    have hsplit : split = true := by
      have hmay := hfold.1
      simp only [Bool.and_eq_true] at hmay
      exact hmay.1.1
    by_cases hhead : t.head? = some (.char ' ')
    · obtain ⟨u, rfl⟩ := List.head?_eq_some_iff.mp hhead
      rw [if_pos hhead, List.append_assoc]
      exact (hblank u rfl).escape_blank hindent hbare hsplit m
    · have hread := ReadsQuoted.escape c (ReadsQuoted.join hindent (by
        simpa using startsWord_body hhead) (h.reads true (Nat.le_refl indent))) m
      rw [readTail_cons fun _ => .inr (.inl hhead), joinedLine_of_ne hhead, if_neg hhead]
      simpa using hread

/-- Every text after its first code point is read between double quotes. An escape takes a blank
that follows it along, so that the induction is on the two texts after the escape. -/
theorem readsBody (hindent : 0 < indent) (start : Mark) (rest t : Text) :
    ReadsBody split indent start rest t := by
  match t with
  | [] => exact readsBody_nil
  | c :: t =>
    have ih := readsBody hindent start rest t
    cases hbare : isBare c with
    | true => exact ih.bare hindent hbare
    | false =>
      refine ih.escape hindent hbare ?_
      cases t with
      | nil => exact fun _ h => nomatch h
      | cons d t =>
        rintro u ⟨⟩
        exact readsBody hindent start rest t

/-- What is read of a text between double quotes. -/
def reread (split : Bool) (indent : Nat) : Text → Text
  | [] => []
  | c :: t => c :: readTail split indent t

/-- A text is read between double quotes. -/
theorem readsQuoted_double (hindent : 0 < indent) {column : Nat} (hcolumn : indent ≤ column)
    (t : Text) (m : Mark) (rest : Text) :
    ReadsQuoted true start m (doubleQuotedBody split indent true false column t ++ [.char '"'])
      rest (reread split indent t) := by
  match t with
  | [] => exact readsQuoted_close
  | c :: t =>
    cases hbare : isBare c with
    | true =>
      obtain ⟨d, rfl, hlow, hhigh, hd⟩ := exists_of_isBare hbare
      rw [body_bare hbare, if_neg (by simp), reread]
      by_cases hspace : d = ' '
      · subst hspace
        exact readsBody hindent start rest t false (Nat.le_succ_of_le hcolumn) 1 m
      · have hlt : ' ' < d := Char.not_le.mp fun h => hspace (Char.le_antisymm h hlow)
        exact ReadsQuoted.char hlt hhigh hd
          ((readsBody hindent start rest t).reads false (Nat.le_succ_of_le hcolumn)) m
    | false =>
      have hcolumn' : indent ≤ column + (escapeOf c).length := by omega
      rw [body_escape hbare, if_neg (by simp), List.append_assoc, reread]
      exact ReadsQuoted.escape c ((readsBody hindent start rest t).reads true hcolumn') m

/-! ### Single quotes -/

lemma readsQuoted_closeSingle (hrest : ∃ c u, rest = .char c :: u ∧ c ≠ '\'') :
    ReadsQuoted false start m [.char '\''] rest [] := by
  intro fuel hfuel
  obtain ⟨fuel, rfl⟩ : ∃ f, fuel = f + 1 := ⟨fuel - 1, by simp at hfuel; omega⟩
  obtain ⟨c, u, rfl, hc⟩ := hrest
  rw [List.cons_append, List.nil_append, ofText_char, quotedBody, if_pos (by decide)]
  have hpeek : (ofText (m.next '\'') (.char c :: u)).peek = some c := rfl
  rw [hpeek, if_neg (by simpa using hc)]
  rfl

lemma isPiece_quote : IsPiece false start m "''" t [.char '\''] := fun _ => rfl

lemma hasBlankAtLineEnd_cons {c : CodePoint} (h : hasBlankAtLineEnd (c :: t) = false) :
    hasBlankAtLineEnd t = false := by
  cases t with
  | nil => rfl
  | cons d t =>
    rw [hasBlankAtLineEnd, Bool.or_eq_false_iff] at h
    exact h.2

lemma exists_of_isWordGap {before : Option CodePoint} (h : isWordGap before t = true) :
    ∃ b a u, before = some b ∧ t = a :: u ∧ b ≠ .char ' ' ∧ a ≠ .char ' ' := by
  cases before with
  | none => simp [isWordGap] at h
  | some b =>
    cases t with
    | nil => simp [isWordGap] at h
    | cons a u =>
      simp only [isWordGap, Bool.and_eq_true, bne_iff_ne] at h
      exact ⟨b, a, u, rfl, rfl, h⟩

/-- The indentation of what follows the ends of lines, if that is no further one. -/
def lead (indent : Nat) (t : Text) : Text :=
  if t.head? = some (.char '\n') then [] else Text.spaces indent

lemma foldWords_lineEnd (write : CodePoint → Text) {before : Option CodePoint} (column : Nat)
    (h : before ≠ some (.char '\n')) :
    foldWords write split indent before column (.char '\n' :: t)
      = List.replicate 2 (.char '\n') ++
          (lead indent t ++ foldWords write split indent (some (.char '\n')) indent t) := by
  rw [foldWords, if_pos rfl, foldedLineEnd, if_neg h]
  rfl

lemma foldWords_lineEnds (write : CodePoint → Text) (column : Nat) :
    foldWords write split indent (some (.char '\n')) column (.char '\n' :: t)
      = .char '\n' :: (lead indent t ++
          foldWords write split indent (some (.char '\n')) indent t) := by
  rw [foldWords, if_pos rfl, foldedLineEnd, if_pos rfl]
  rfl

lemma startsWord_single {c : CodePoint} (hc : isOrdinary c = true) (hspace : c ≠ .char ' ')
    (hline : c ≠ .char '\n') (before : Option CodePoint) (column : Nat) :
    StartsWord (foldWords singleQuotedPoint split indent before column (c :: t) ++ rest) := by
  rw [foldWords, if_neg hline, if_neg fun h => hspace h.1]
  rw [isOrdinary, Bool.or_eq_true, beq_iff_eq] at hc
  obtain ⟨d, rfl, hlow, hhigh⟩ := exists_char_of_within (hc.resolve_right hline)
  have hlt : ' ' < d := Char.not_le.mp fun h => hspace (by rw [Char.le_antisymm h hlow])
  rw [singleQuotedPoint]
  split
  · exact ⟨'\'', _, rfl, by decide, by decide⟩
  · exact ⟨d, _, rfl, hlt, hhigh⟩

/-- A text is read between single quotes, after a code point before it and with a run of blanks that
is held back, unless the code point before it is the end of a line as its first one is. -/
def ReadsWords (split : Bool) (indent : Nat) (start : Mark) (rest t : Text) : Prop :=
  ∀ (before : Option CodePoint) (column k : Nat) (m : Mark),
    hasBlankAtLineEnd (before.toList ++ t) = false →
    (before = some (.char '\n') → t.head? ≠ some (.char '\n')) →
    (0 < k → before = some (.char ' ')) →
    ReadsQuoted false start m (Text.spaces k ++
      (foldWords singleQuotedPoint split indent before column t ++ [.char '\''])) rest
      (Text.spaces k ++ t)

/-- A text is read between single quotes with a run of ends of lines that is held back. -/
def ReadsLines (split : Bool) (indent : Nat) (start : Mark) (rest t : Text) : Prop :=
  ∀ (j : Nat) (m : Mark), 0 < j → hasBlankAtLineEnd (.char '\n' :: t) = false →
    ReadsQuoted false start m (List.replicate (j + 1) (.char '\n') ++ (lead indent t ++
      (foldWords singleQuotedPoint split indent (some (.char '\n')) indent t ++ [.char '\''])))
      rest (List.replicate j (.char '\n') ++ t)

lemma hasBlankAtLineEnd_of_before {before : Option CodePoint}
    (h : hasBlankAtLineEnd (before.toList ++ t) = false) : hasBlankAtLineEnd t = false := by
  cases before with
  | none => exact h
  | some b => exact hasBlankAtLineEnd_cons h

lemma not_hasBlankAtLineEnd_space : ¬ hasBlankAtLineEnd (.char ' ' :: .char '\n' :: t) = false := by
  simp [hasBlankAtLineEnd, isLineEnd, CodePoint.isOneOf]

section

variable (hrest : ∃ c u, rest = .char c :: u ∧ c ≠ '\'')

include hrest

lemma readsWords_nil : ReadsWords split indent start rest [] :=
  fun _ _ k _ _ _ _ => ReadsQuoted.spaces k ⟨'\'', rest, rfl, by decide, by decide⟩
    (readsQuoted_closeSingle hrest)

lemma readsLines_nil (hindent : 0 < indent) : ReadsLines split indent start rest [] := by
  intro j m hj _
  have hquote : StartsWord ([.char '\''] ++ rest) := ⟨'\'', rest, rfl, by decide, by decide⟩
  have hlines : ReadsQuoted false start m _ rest _ :=
    (isPiece_lines j hindent hquote).append (by simp) (readsQuoted_closeSingle hrest)
  rw [if_neg hj.ne'] at hlines
  simpa [lead, foldWords] using hlines

end

/-- No blank is held back in front of the end of a line. -/
lemma ReadsLines.readsWords (h : ReadsLines split indent start rest t) :
    ReadsWords split indent start rest (.char '\n' :: t) := by
  intro before column k m hblank hfirst hk
  have hk0 : k = 0 := by
    by_contra hne
    rw [hk (Nat.pos_of_ne_zero hne)] at hblank
    exact not_hasBlankAtLineEnd_space hblank
  rw [hk0, foldWords_lineEnd _ _ fun h => hfirst h rfl]
  simpa [Text.spaces] using h 1 m Nat.one_pos (hasBlankAtLineEnd_of_before hblank)

lemma ReadsLines.lineEnd (h : ReadsLines split indent start rest t) :
    ReadsLines split indent start rest (.char '\n' :: t) := by
  intro j m hj hblank
  have hread := h (j + 1) m (Nat.succ_pos j) (hasBlankAtLineEnd_cons hblank)
  rw [foldWords_lineEnds]
  simpa [lead, List.replicate_succ'] using hread

/-- A blank between two words is the end of a line, or is held back. -/
lemma ReadsWords.blank (hindent : 0 < indent) (ht : IsPage t)
    (h : ReadsWords split indent start rest t) :
    ReadsWords split indent start rest (.char ' ' :: t) := by
  intro before column k m hblank hfirst hk
  replace hblank := hasBlankAtLineEnd_of_before hblank
  rw [foldWords, if_neg (by decide)]
  split
  case isTrue hfold =>
    -- The blank is the only one between two words, so it becomes the end of a line.
    obtain ⟨b, a, u, rfl, rfl, hb, hspace⟩ := exists_of_isWordGap hfold.2.2.2
    have hk0 : k = 0 := by
      by_contra hne
      exact hb (Option.some.inj (hk (Nat.pos_of_ne_zero hne)))
    have hend : a ≠ .char '\n' := by
      rintro rfl
      exact not_hasBlankAtLineEnd_space hblank
    have hstart : StartsWord (foldWords singleQuotedPoint split indent (some (.char ' '))
        indent (a :: u) ++ ([.char '\''] ++ rest)) :=
      startsWord_single (isPage_cons.mp ht).1 hspace hend _ _
    have hread := ReadsQuoted.line hindent (by simpa using hstart)
      (h (some (.char ' ')) indent 0 · hblank (by simp) (by simp)) m
    rw [hk0]
    simpa [Text.spaces] using hread
  case isFalse =>
    have hread := h (some (.char ' ')) (column + 1) (k + 1) m hblank (by simp) (by simp)
    simpa [Text.spaces, List.replicate_succ', singleQuotedPoint] using hread

/-- A code point of a word is read after the blanks that are held back. -/
lemma ReadsWords.point {c : CodePoint} (hc : isOrdinary c = true) (hspace : c ≠ .char ' ')
    (hend : c ≠ .char '\n') (h : ReadsWords split indent start rest t) :
    ReadsWords split indent start rest (c :: t) := by
  intro before column k m hblank hfirst hk
  refine ReadsQuoted.spaces k ?_ ?_
  · simpa using startsWord_single hc hspace hend before column
  · have hread (m : Mark) := h (some c) (column + (singleQuotedPoint c).length) 0 m
      (hasBlankAtLineEnd_of_before hblank) (fun h => absurd (Option.some.inj h) hend) (by simp)
    rw [foldWords, if_neg hend, if_neg fun h => hspace h.1]
    rw [isOrdinary, Bool.or_eq_true, beq_iff_eq] at hc
    obtain ⟨d, rfl, hlow, hhigh⟩ := exists_char_of_within (hc.resolve_right hend)
    have hlt : ' ' < d := Char.not_le.mp fun h => hspace (by rw [Char.le_antisymm h hlow])
    by_cases hquote : d = '\''
    · subst hquote
      exact isPiece_quote.append (by decide) (hread _)
    · have hpoint : singleQuotedPoint (.char d) = [.char d] := if_neg (by simpa using hquote)
      rw [hpoint] at hread ⊢
      exact (isPiece_char hlt hhigh (fun _ => hquote) (fun h => absurd h (by decide))).append
        (by simp) (hread _)

/-- After ends of lines, a word follows the indentation. -/
lemma ReadsWords.readsLines (hindent : 0 < indent) {c : CodePoint} (hc : isOrdinary c = true)
    (hend : c ≠ .char '\n') (h : ReadsWords split indent start rest (c :: t)) :
    ReadsLines split indent start rest (c :: t) := by
  intro j m hj hblank
  have hspace : c ≠ .char ' ' := by
    rintro rfl
    simp [hasBlankAtLineEnd, isLineEnd, CodePoint.isOneOf] at hblank
  have hstart : StartsWord (foldWords singleQuotedPoint split indent (some (.char '\n'))
      indent (c :: t) ++ ([.char '\''] ++ rest)) := startsWord_single hc hspace hend _ _
  have hread : ReadsQuoted false start m _ rest _ :=
    (isPiece_lines j hindent (by simpa using hstart)).append (by simp)
      (h (some (.char '\n')) indent 0 _ hblank (by simpa using hend) (by simp))
  have hlead : lead indent (c :: t) = Text.spaces indent := if_neg (by simpa using hend)
  rw [if_neg hj.ne'] at hread
  simpa [hlead, Text.spaces] using hread

/-- A text is read between single quotes, with a run of blanks or of ends of lines that is held
back. -/
theorem readsWords_and_readsLines (hindent : 0 < indent) (t : Text) (hpage : IsPage t)
    (hrest : ∃ c u, rest = .char c :: u ∧ c ≠ '\'') :
    ReadsWords split indent start rest t ∧ ReadsLines split indent start rest t := by
  induction t with
  | nil => exact ⟨readsWords_nil hrest, readsLines_nil hrest hindent⟩
  | cons c t ih =>
    obtain ⟨hc, ht⟩ := isPage_cons.mp hpage
    obtain ⟨hwords, hlines⟩ := ih ht
    by_cases hend : c = .char '\n'
    · subst hend
      exact ⟨hlines.readsWords, hlines.lineEnd⟩
    have hreads : ReadsWords split indent start rest (c :: t) := by
      by_cases hspace : c = .char ' '
      · subst hspace
        exact hwords.blank hindent ht
      · exact hwords.point hc hspace hend
    exact ⟨hreads, hreads.readsLines hindent hc hend⟩

/-- A text is read between single quotes. -/
theorem readsQuoted_single (hindent : 0 < indent) (h : allowsSingleQuotes t = true) (column : Nat)
    (hrest : ∃ c u, rest = .char c :: u ∧ c ≠ '\'') :
    ReadsQuoted false start m
      (foldWords singleQuotedPoint split indent none column t ++ [.char '\'']) rest t := by
  have hblank : hasBlankAtLineEnd t = false := by
    rw [allowsSingleQuotes, Bool.and_eq_true, Bool.not_eq_true'] at h
    exact h.2
  exact (readsWords_and_readsLines hindent t (isPage_of_allowsSingleQuotes h) hrest).1 none column 0
    m hblank (by simp) (by simp)

/-! ### Scalars -/

/-- A text between quotes is read with the source after it. -/
lemma ReadsQuoted.quotedScalar_eq {q : Char} (hw : IsPage w)
    (h : ReadsQuoted double m (m.next q) w rest content) :
    quotedScalar double (ofText m (.char q :: w ++ rest))
      = .ok (content, ofText (m.after (.char q :: w)) rest) := by
  have hlength := length_ofText_append (m := m.next q) (u := rest) hw
  have hsource : ofText m (.char q :: w ++ rest) = .more q m (ofText (m.next q) (w ++ rest)) := rfl
  rw [hsource, quotedScalar]
  exact h _ (by simp only [Source.length, hlength]; omega)

/-- What is read of a text that is written as a scalar. -/
def seenText (split : Bool) (indent : Nat) (t : Text) : Text :=
  match ScalarStyle.of t with
  | .plain | .singleQuoted => t
  | .doubleQuoted => reread split indent t

/-- A text that is not folded is read as it stands. -/
lemma seenText_false (indent : Nat) (t : Text) : seenText false indent t = t := by
  unfold seenText
  split
  · rfl
  · rfl
  · cases t <;> rfl

/-- A scalar between double quotes. -/
theorem quotedScalar_double (split : Bool) {column : Nat} (m : Mark) (rest : Text)
    (h : ScalarStyle.of t = .doubleQuoted)
    (hindent : 0 < indent) (hcolumn : indent ≤ column) :
    (∃ u, scalar split indent column t = .char '"' :: u) ∧
      quotedScalar true (ofText m (scalar split indent column t ++ rest))
        = .ok (seenText split indent t, ofText (m.after (scalar split indent column t)) rest) := by
  have hscalar : scalar split indent column t = .char '"' ::
      (doubleQuotedBody split indent true false (column + 1) t ++ [.char '"']) := by
    rw [scalar, h]
    rfl
  have hpage : IsPage (doubleQuotedBody split indent true false (column + 1) t ++ [.char '"']) :=
    (isPage_doubleQuotedBody t _ _ _).append (isPage_cons.mpr ⟨rfl, isLine_nil.isPage⟩)
  rw [hscalar, seenText, h]
  exact ⟨⟨_, rfl⟩, (readsQuoted_double hindent (Nat.le_succ_of_le hcolumn) t _ rest).quotedScalar_eq
    hpage⟩

/-- A scalar between single quotes is read back. -/
theorem quotedScalar_single (split : Bool) (column : Nat) (m : Mark)
    (h : ScalarStyle.of t = .singleQuoted) (hindent : 0 < indent)
    (hrest : ∃ c u, rest = .char c :: u ∧ c ≠ '\'') :
    (∃ u, scalar split indent column t = .char '\'' :: u) ∧
      quotedScalar false (ofText m (scalar split indent column t ++ rest))
        = .ok (seenText split indent t, ofText (m.after (scalar split indent column t)) rest) := by
  have hscalar : scalar split indent column t = .char '\'' ::
      (foldWords singleQuotedPoint split indent none (column + 1) t ++ [.char '\'']) := by
    rw [scalar, h]
    rfl
  have hquotes : allowsSingleQuotes t = true := by
    unfold ScalarStyle.of at h
    split_ifs at h with _ hquotes
    exact hquotes
  have ht := isPage_of_allowsSingleQuotes hquotes
  have hpage : IsPage (foldWords singleQuotedPoint split indent none (column + 1) t ++
      [.char '\'']) :=
    (isPage_foldWords (fun c hc => isPage_singleQuotedPoint (ht c hc)) _ _).append
      (isPage_cons.mpr ⟨rfl, isLine_nil.isPage⟩)
  rw [hscalar, seenText, h]
  exact ⟨⟨_, rfl⟩, (readsQuoted_single hindent hquotes (column + 1) hrest).quotedScalar_eq hpage⟩

end Schematic.Yaml
