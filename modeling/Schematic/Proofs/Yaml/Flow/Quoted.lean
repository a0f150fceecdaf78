import Schematic.Proofs.Yaml.Flow.Seen
import Schematic.Proofs.Yaml.Flow.Source

/-!
# Texts of JSON documents between double quotes

Between double quotes YAML has all escapes of JSON, and reads them one by one. Blanks are taken in
runs, so that a run may have to wait for the piece after it.
-/

namespace Schematic.Yaml

open Source
open Json (Piece SpelledUnit isHighHalf isLowHalf point quoted seenContent simpleEscape?)

variable {start m : Mark} {t w rest content : Text} {c : Char}

/-- In front of `tail` the reader takes `w` as a piece of its own, with a content. -/
def TakesPiece (start m : Mark) (w tail content : Text) : Prop :=
  ∀ fuel, quotedBody true start (fuel + 1) (placed m (w ++ tail))
    = quotedBody true start fuel (placed (m.after w) tail) >>= fun p => .ok (content ++ p.1, p.2)

/-- The text `w` with its closing quote is read to a content, in front of a rest. -/
def TakesBody (start m : Mark) (w rest content : Text) : Prop :=
  ∀ fuel, w.length ≤ fuel →
    quotedBody true start fuel (placed m (w ++ rest)) = .ok (content, placed (m.after w) rest)

/-- A piece in front of a body makes a longer body. -/
lemma TakesPiece.append {v : Text} (hpiece : TakesPiece start m v (w ++ rest) content)
    (hne : v ≠ []) (h : TakesBody start (m.after v) w rest t) :
    TakesBody start m (v ++ w) rest (content ++ t) := by
  intro fuel hfuel
  have hpos := List.length_pos_iff.mpr hne
  rw [List.length_append] at hfuel
  obtain ⟨fuel, rfl⟩ : ∃ f, fuel = f + 1 := ⟨fuel - 1, by omega⟩
  rw [List.append_assoc, hpiece fuel, h fuel (by omega), Mark.after_append]
  rfl

lemma takesBody_close : TakesBody start m [.char '"'] rest [] := by
  intro fuel hfuel
  obtain ⟨fuel, rfl⟩ : ∃ f, fuel = f + 1 := ⟨fuel - 1, by simp at hfuel; omega⟩
  rfl

/-! ### Pieces -/

/-- A character that has no meaning of its own. -/
lemma takesPiece_char (hquote : c ≠ '"') (hescape : c ≠ '\\') (hblank : isSpaceOrTab c = false)
    (hbreak : isBreak c = false) : TakesPiece start m [.char c] t [.char c] := by
  intro fuel
  have hreturn : c ≠ '\r' := by
    rintro rfl
    cases hbreak
  rw [List.cons_append, List.nil_append, placed_char hreturn, quotedBody, if_neg (by simp),
    if_neg (by simp [hquote]), if_neg (by simp [hescape]), hblank, hbreak]
  rfl

lemma quotedBody_backslash (fuel : Nat) :
    quotedBody true start (fuel + 1) (placed m (.char '\\' :: t))
      = quotedEscape start (placed (m.next '\\') t) >>= fun p =>
          quotedBody true start fuel p.2 >>= fun q => .ok (p.1 ++ q.1, q.2) := rfl

/-- The letters of the escapes of JSON mean the same. -/
lemma exists_of_simpleEscape? {c d : CodePoint} (h : simpleEscape? c = some d) :
    ∃ a b, c = .char a ∧ d = .char b ∧ a ≠ '\r' ∧ escapes.lookup a = some b := by
  unfold simpleEscape? at h
  split at h
  all_goals first
    | cases h
      exact ⟨_, _, rfl, rfl, by decide, by decide⟩
    | cases h

/-- An escape by a letter is taken for the letter. -/
lemma takesPiece_letter {c d : CodePoint} (h : simpleEscape? c = some d) :
    TakesPiece start m [.char '\\', c] t [d] := by
  obtain ⟨a, b, rfl, rfl, hreturn, hlookup⟩ := exists_of_simpleEscape? h
  intro fuel
  have hescape : quotedEscape start (placed (m.next '\\') (.char a :: t))
      = .ok ([.char b], placed ((m.next '\\').next a) t) := by
    rw [placed_char hreturn, quotedEscape]
    simp only [hlookup]
  rw [List.cons_append, List.cons_append, List.nil_append, quotedBody_backslash, hescape]
  rfl

/-! ### Escapes by number -/

/-- A hexadecimal digit is taken and counted. -/
lemma hexNumber_digit {c : CodePoint} {d : Nat} (hd : c.hexDigit? = some d) (count n : Nat) :
    hexNumber (count + 1) n (placed m (c :: t))
      = hexNumber count (n * 16 + d) (placed (m.after [c]) t) := by
  cases c with
  | lone half => cases hd
  | char c =>
    have hreturn : c ≠ '\r' := by
      rintro rfl
      cases hd
    rw [placed_char hreturn, hexNumber, hd]
    rfl

/-- The four digits of a unit are read as its number. -/
lemma hexNumber_digits (u : SpelledUnit) (m : Mark) :
    hexNumber 4 0 (placed m (u.digits ++ t)) = .ok (u.number, placed (m.after u.digits) t) := by
  obtain ⟨a, b, c, d, i, j, k, l, hdigits, ha, hb, hc, hd, hnumber⟩ := u.exists_hexDigits_eq
  have hsum : (((0 * 16 + i) * 16 + j) * 16 + k) * 16 + l = u.number := by omega
  have hmark : ((((m.after [a]).after [b]).after [c]).after [d]) = m.after [a, b, c, d] := by
    simp only [← Mark.after_append, List.cons_append, List.nil_append]
  rw [hdigits, ← hsum, ← hmark, List.cons_append, hexNumber_digit ha, List.cons_append,
    hexNumber_digit hb, List.cons_append, hexNumber_digit hc, List.cons_append, hexNumber_digit hd,
    hexNumber, List.nil_append]

/-- Each number below the limit is that of a code point. -/
lemma CodePoint.exists_ofNat?_eq {n : Nat} (h : n < 0x110000) :
    ∃ c, CodePoint.ofNat? n = some c := by
  by_cases hvalid : n.isValidChar
  · exact ⟨_, dif_pos hvalid⟩
  · have hhalf : 0xD800 ≤ n ∧ n < 0xE000 := by
      rw [Nat.isValidChar] at hvalid
      omega
    exact ⟨_, (dif_neg hvalid).trans (dif_pos hhalf)⟩

/-- There is a code point of every number of a unit. -/
lemma escapedPoint_number (u : SpelledUnit) : escapedPoint u.number = .ok (point u.number) := by
  obtain ⟨c, hc⟩ := CodePoint.exists_ofNat?_eq (Nat.lt_trans u.number_lt (by decide))
  rw [escapedPoint, point, hc]
  rfl

/-- An escape by four digits is taken for the code point with the number. -/
lemma takesPiece_unit (u : SpelledUnit) :
    TakesPiece start m (.char '\\' :: .char 'u' :: u.digits) t [point u.number] := by
  intro fuel
  have hescape : quotedEscape start (placed (m.next '\\') (.char 'u' :: (u.digits ++ t)))
      = .ok ([point u.number], placed (((m.next '\\').next 'u').after u.digits) t) := by
    have hlookup : escapes.lookup 'u' = none := by decide
    have hlength : hexEscapeLength? 'u' = some 4 := by decide
    rw [placed_char (by decide), quotedEscape]
    simp only [hlookup, hlength, hexNumber_digits, escapedPoint_number]
    rfl
  rw [List.cons_append, List.cons_append, quotedBody_backslash, hescape]
  rfl

/-! ### Runs of blanks -/

/-- A text starts with a character that is no blank. -/
def StartsPiece (t : Text) : Prop :=
  ∃ c u, t = .char c :: u ∧ isSpaceOrTab c = false ∧ isBreak c = false

/-- A run of spaces ends where a piece starts. -/
lemma span_spaces_placed (n : Nat) (h : StartsPiece t) (m : Mark) :
    (placed m (Text.spaces n ++ t)).span isSpaceOrTab
      = (List.replicate n ' ', placed (m.after (Text.spaces n)) t) := by
  induction n generalizing m with
  | zero =>
    obtain ⟨c, u, rfl, hblank, hbreak⟩ := h
    have hreturn : c ≠ '\r' := by
      rintro rfl
      cases hbreak
    rw [spaces_zero, List.nil_append, Mark.after_nil, placed_char hreturn, span, hblank]
    exact if_neg (by decide)
  | succ n ih =>
    rw [spaces_succ, List.cons_append, placed_char (by decide), span, if_pos (by decide), ih]
    rfl

/-- A run of blanks in front of a piece is read as it stands. -/
lemma takesPiece_spaces (n : Nat) (h : StartsPiece t) :
    TakesPiece start m (Text.spaces (n + 1)) t (Text.spaces (n + 1)) := by
  intro fuel
  have hspan := span_spaces_placed (n + 1) h m
  obtain ⟨c, u, rfl, hblank, hbreak⟩ := h
  have hreturn : c ≠ '\r' := by
    rintro rfl
    cases hbreak
  have hblanks : quotedBlanks start (placed m (Text.spaces (n + 1) ++ .char c :: u))
      = .ok (Text.spaces (n + 1), placed (m.after (Text.spaces (n + 1))) (.char c :: u)) := by
    rw [quotedBlanks, hspan, placed_char hreturn]
    simp [hbreak, Text.ofChars, Text.spaces]
  have hbody : quotedBody true start (fuel + 1) (placed m (Text.spaces (n + 1) ++ .char c :: u))
      = quotedBlanks start (placed m (Text.spaces (n + 1) ++ .char c :: u)) >>= fun p =>
          quotedBody true start fuel p.2 >>= fun q => .ok (p.1 ++ q.1, q.2) := rfl
  rw [hbody, hblanks]
  rfl

/-- What is held back of a run of blanks is read together with what comes after it. -/
lemma TakesBody.spaces (n : Nat) (hstart : StartsPiece (w ++ rest))
    (h : TakesBody start (m.after (Text.spaces n)) w rest content) :
    TakesBody start m (Text.spaces n ++ w) rest (Text.spaces n ++ content) := by
  cases n with
  | zero => exact h
  | succ n => exact (takesPiece_spaces n hstart).append (by simp [Text.spaces]) h

/-! ### Texts -/

lemma startsPiece_backslash : StartsPiece (.char '\\' :: t) := ⟨'\\', t, rfl, by decide, by decide⟩

/-- A piece that is no blank starts no run of blanks, and is read to what is seen in it. -/
lemma takesBody_piece (p : Piece) (hp : IsInline p.text) (hspace : p.text ≠ [.char ' '])
    (h : ∀ m, TakesBody start m w rest content) :
    (∀ u, StartsPiece (p.text ++ u)) ∧
      ∀ m, TakesBody start m (p.text ++ w) rest (p.seen ++ content) := by
  cases p with
  | plain c hc =>
    obtain ⟨d, rfl, hbreak⟩ := (isInline_cons.mp hp).1
    obtain ⟨hvalue, hquote, hescape⟩ := hc
    have hblank : isSpaceOrTab d = false := by
      -- A blank would be the space that is ruled out, as no other blank stands for itself.
      rw [isSpaceOrTab, Bool.or_eq_false_iff, beq_eq_false_iff_ne, beq_eq_false_iff_ne]
      constructor
      · rintro rfl
        exact hspace rfl
      · rintro rfl
        exact absurd hvalue (by decide)
    exact ⟨fun u => ⟨d, u, rfl, hblank, hbreak⟩, fun m => (takesPiece_char (by simpa using hquote)
      (by simpa using hescape) hblank hbreak).append (by simp) (h _)⟩
  | letter c d hletter =>
    exact ⟨fun u => startsPiece_backslash,
      fun m => (takesPiece_letter hletter).append (by simp) (h _)⟩
  | unit u hu =>
    exact ⟨fun u => startsPiece_backslash, fun m => (takesPiece_unit u).append (by simp) (h _)⟩
  | pair high low hpair =>
    refine ⟨fun u => startsPiece_backslash, fun m => ?_⟩
    -- Each half of a pair is an escape of its own here.
    have hlow (m : Mark) : TakesBody start m ((.char '\\' :: .char 'u' :: low.digits) ++ w) rest
        (point low.number :: content) := (takesPiece_unit low).append (by simp) (h _)
    have hboth := (takesPiece_unit high).append (by simp) (hlow _) (m := m)
    simpa [Piece.text, Piece.seen] using hboth

/-- A text between double quotes is read to what is seen in it, together with a run of blanks that
is held back. -/
lemma takesBody_pieces (ps : List Piece) (hps : IsInline (ps.flatMap Piece.text)) (n : Nat)
    (start m : Mark) (rest : Text) :
    TakesBody start m (Text.spaces n ++ (ps.flatMap Piece.text ++ [.char '"'])) rest
      (Text.spaces n ++ seenContent ps) := by
  induction ps generalizing n m with
  | nil => exact takesBody_close.spaces n ⟨'"', rest, rfl, by decide, by decide⟩
  | cons p ps ih =>
    rw [List.flatMap_cons] at hps
    obtain ⟨hp, hps⟩ := isInline_append.mp hps
    rw [seenContent, List.flatMap_cons, List.flatMap_cons, ← seenContent, List.append_assoc]
    by_cases hspace : p.text = [.char ' ']
    · have hseen : p.seen = [.char ' '] := by
        cases p with
        | plain c hc => exact hspace
        | _ => simp [Piece.text] at hspace
      rw [hspace, hseen]
      simpa [Text.spaces, List.replicate_succ'] using ih hps (n + 1) m
    · obtain ⟨hstart, hpiece⟩ := takesBody_piece p hp hspace fun m => ih hps 0 m
      exact TakesBody.spaces n (by simpa using hstart _) (hpiece _)

lemma isInline_quoted {ps : List Piece} (h : IsInline (ps.flatMap Piece.text)) :
    IsInline (quoted ps) :=
  isInline_cons.mpr ⟨⟨'"', rfl, by decide⟩, isInline_append.mpr ⟨h, isInline_cons.mpr
    ⟨⟨'"', rfl, by decide⟩, List.forall_mem_nil _⟩⟩⟩

/-- A text of a JSON document is read to what is seen in it. -/
theorem quotedScalar_quoted (ps : List Piece) (hps : IsInline (ps.flatMap Piece.text)) (m : Mark) :
    quotedScalar true (placed m (quoted ps ++ rest))
      = .ok (seenContent ps, placed (m.after (quoted ps)) rest) := by
  have hlength := (isInline_quoted hps).length_placed_append m rest
  have hbody := takesBody_pieces ps hps 0 m (m.next '"') rest
  have hsource : (placed m (quoted ps ++ rest)).mark = m ∧ (placed m (quoted ps ++ rest)).tail
      = placed (m.next '"') ((ps.flatMap Piece.text ++ [.char '"']) ++ rest) := ⟨rfl, rfl⟩
  rw [quotedScalar, hsource.1, hsource.2]
  refine hbody _ ?_
  rw [hlength, quoted, List.length_cons, spaces_zero, List.nil_append]
  omega

end Schematic.Yaml
