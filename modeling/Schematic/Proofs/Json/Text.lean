import Schematic.Json.Strict
import Schematic.Json.Writer
import Schematic.Proofs.Fault
import Schematic.Proofs.Json.Grammar
import Schematic.Proofs.Text.Digit
import Schematic.Proofs.Text.Unicode

/-!
# Texts are read

Between quotes each reader takes exactly what is spelled for one code point and goes on with the
rest, so that a text is read code point by code point.
-/

namespace Schematic

/-- A code point is found by its number. -/
lemma CodePoint.ofNat?_value (c : CodePoint) : ofNat? c.value = some c := by
  cases c with
  | char c =>
    have hvalid : c.toNat.isValidChar := c.valid
    rw [ofNat?, value, dif_pos hvalid]
    rfl
  | lone half =>
    have hlt := half.isLt
    have hinvalid : ¬ (0xD800 + half.val).isValidChar := by
      simp only [Nat.isValidChar]
      omega
    rw [ofNat?, value, dif_neg hinvalid, dif_pos (by omega)]
    simp

namespace Json

lemma point_value (c : CodePoint) : point c.value = c := by
  rw [point, CodePoint.ofNat?_value]
  rfl

/-! ### Units -/

namespace SpelledUnit

variable (u : SpelledUnit) (more : Text)

lemma exists_digits_eq : ∃ a b c d, u.digits = [a, b, c, d] := by
  match h : u.digits, u.length_digits with
  | [a, b, c, d], _ => exact ⟨a, b, c, d, rfl⟩

lemma hex4?_append : hex4? (u.digits ++ more) = some u.number := by
  have hnumber := u.hex4?_digits
  obtain ⟨a, b, c, d, hdigits⟩ := u.exists_digits_eq
  rw [hdigits] at hnumber ⊢
  exact hnumber

lemma drop_append : (u.digits ++ more).drop 4 = more := by
  rw [← u.length_digits, List.drop_left]

/-- The digits of a unit and what they stand for. -/
lemma exists_hexDigits_eq :
    ∃ a b c d i j k l, u.digits = [a, b, c, d] ∧ a.hexDigit? = some i ∧ b.hexDigit? = some j ∧
      c.hexDigit? = some k ∧ d.hexDigit? = some l ∧ (i * 16 + j) * 256 + k * 16 + l = u.number := by
  have hnumber := u.hex4?_digits
  obtain ⟨a, b, c, d, hdigits⟩ := u.exists_digits_eq
  rw [hdigits] at hnumber
  simp only [hex4?, Option.bind_eq_bind, Option.bind_eq_some_iff] at hnumber
  obtain ⟨i, ha, j, hb, k, hc, l, hd, hnumber⟩ := hnumber
  exact ⟨a, b, c, d, i, j, k, l, hdigits, ha, hb, hc, hd, Option.some.inj hnumber⟩

/-- The number of a unit fits into sixteen bits. -/
lemma number_lt : u.number < 0x10000 := by
  obtain ⟨a, b, c, d, i, j, k, l, -, ha, hb, hc, hd, hnumber⟩ := u.exists_hexDigits_eq
  have := CodePoint.lt_of_hexDigit? ha
  have := CodePoint.lt_of_hexDigit? hb
  have := CodePoint.lt_of_hexDigit? hc
  have := CodePoint.lt_of_hexDigit? hd
  omega

end SpelledUnit

/-- A hexadecimal digit is a single byte. -/
lemma byteCount_of_hexDigit? {a : CodePoint} {n : Nat} (h : a.hexDigit? = some n) :
    Strict.byteCount a = 1 := by
  cases a with
  | lone _ => cases h
  | char c =>
    have hascii : c.toNat < 0x80 := by
      have hle {d : Char} (hcd : c ≤ d) : c.toNat ≤ d.toNat := hcd
      unfold CodePoint.hexDigit? at h
      simp only [Bool.and_eq_true, decide_eq_true_eq] at h
      split at h
      case isTrue hc => exact Nat.lt_of_le_of_lt (hle hc.2) (by decide)
      case isFalse =>
        split at h
        case isTrue hc => exact Nat.lt_of_le_of_lt (hle hc.2) (by decide)
        case isFalse =>
          split at h
          case isTrue hc => exact Nat.lt_of_le_of_lt (hle hc.2) (by decide)
          case isFalse => cases h
    rw [Strict.byteCount, Utf8.encodeChar]
    simp only [if_pos hascii, List.length_singleton]

/-- A unit is read from its four digits. -/
lemma SpelledUnit.unit_append (u : SpelledUnit) (more : Text) :
    Strict.unit (u.digits ++ more) = .ok u.number := by
  obtain ⟨a, b, c, d, i, j, k, l, hdigits, ha, hb, hc, hd, -⟩ := u.exists_hexDigits_eq
  have hbytes : Strict.byteLength ((u.digits ++ more).take 4) = 4 := by
    simp [hdigits, Strict.byteLength, byteCount_of_hexDigit? ha, byteCount_of_hexDigit? hb,
      byteCount_of_hexDigit? hc, byteCount_of_hexDigit? hd]
  rw [Strict.unit, hbytes, if_neg (by decide), u.hex4?_append]

/-! ### The lenient reader -/

section

variable (start here : Text) {more : Text}

/-- An escape by a letter takes the letter. -/
lemma escape_letter {c d : CodePoint} (h : simpleEscape? c = some d) :
    escape start here (c :: more) = .ok (d, 1) := by
  unfold escape
  split
  · simp_all
  · simp_all [simpleEscape?]
  · simp_all

/-- An escape by a unit takes five code points, unless it starts a pair. -/
lemma escape_unit (u : SpelledUnit) (h : isHighHalf u.number = false) (hmore : more ≠ []) :
    escape start here (.char 'u' :: (u.digits ++ more)) = .ok (point u.number, 5) := by
  have hne : more.isEmpty = false := by simpa using hmore
  simp only [escape, numericEscape, u.hex4?_append, u.drop_append, hne, h, Bool.false_eq_true,
    if_false, Bool.false_and]
  split <;> rfl

/-- An escape by a pair takes both of its halves. -/
lemma escape_pair (high low : SpelledUnit) (hhigh : isHighHalf high.number = true)
    (hlow : isLowHalf low.number = true) (hmore : more ≠ []) :
    escape start here
      (.char 'u' :: (high.digits ++ .char '\\' :: .char 'u' :: (low.digits ++ more)))
      = .ok (point (joinHalves high.number low.number), 11) := by
  have hne : more.isEmpty = false := by simpa using hmore
  simp only [escape, numericEscape, high.hex4?_append, high.drop_append, low.hex4?_append,
    low.drop_append, hne, hhigh, hlow, List.isEmpty_cons, Bool.false_eq_true, if_false,
    Bool.not_false, Bool.and_self, if_true]

/-- Code points that are to be passed over are passed over. -/
lemma textBody_skip (t more : Text) :
    textBody start t.length (t ++ more) = textBody start 0 more := by
  induction t with
  | nil => rfl
  | cons c t ih =>
    rw [List.length_cons, List.cons_append, textBody]
    exact ih

/-- What comes after an escape, if the escape takes so many code points. -/
lemma textBody_escape (spelled : Text) {c : CodePoint}
    (h : escape start (.char '\\' :: (spelled ++ more)) (spelled ++ more)
      = .ok (c, spelled.length)) :
    textBody start 0 (.char '\\' :: (spelled ++ more))
      = textBody start 0 more >>= fun (t, after) => .ok (c :: t, after) := by
  rw [textBody, h, ok_bind]
  simp only [textBody_skip]
  rfl

/-- What is spelled for a code point reads as the code point. -/
lemma textBody_piece (p : Piece) (hmore : more ≠ []) :
    textBody start 0 (p.text ++ more)
      = textBody start 0 more >>= fun (t, after) => .ok (p.codePoint :: t, after) := by
  cases p with
  | plain c h =>
    simp only [Piece.text, List.cons_append, List.nil_append]
    rw [textBody, if_neg (Nat.not_lt.mpr h.1)]
    · rfl
    · exact h.2.1
    · exact h.2.2
  | letter c d h => exact textBody_escape start [c] (escape_letter _ _ h)
  | unit u h =>
    refine textBody_escape start (.char 'u' :: u.digits) ?_
    rw [List.length_cons, u.length_digits]
    exact escape_unit start _ u h.1 hmore
  | pair high low h =>
    -- Both halves of a pair are taken at once, so that eleven code points are passed over.
    refine textBody_escape start
      (.char 'u' :: (high.digits ++ .char '\\' :: .char 'u' :: low.digits)) ?_
    have hlength :
        (.char 'u' :: (high.digits ++ .char '\\' :: .char 'u' :: low.digits) : Text).length
          = 11 := by
      simp [high.length_digits, low.length_digits]
    rw [hlength]
    simp only [List.cons_append, List.append_assoc]
    exact escape_pair start _ high low h.1 h.2 hmore

/-- A text between quotes is read. -/
theorem textBody_quoted (ps : List Piece) (rest : Text) :
    textBody start 0 (ps.flatMap Piece.text ++ .char '"' :: rest) = .ok (content ps, rest) := by
  induction ps with
  | nil => rfl
  | cons p ps ih =>
    rw [List.flatMap_cons, List.append_assoc, textBody_piece start p (by simp), ih]
    rfl

end

/-! ### The strict reader -/

namespace Strict

variable (more : Text)

/-- An escape by a letter takes the letter. -/
lemma escape_letter {c d : CodePoint} (h : simpleEscape? c = some d) :
    escape (c :: more) = .ok (d, 1) := by
  unfold escape
  split
  · simp_all
  · simp_all [simpleEscape?]
  · simp_all

lemma escape_unit (u : SpelledUnit) (h : isHighHalf u.number = false ∧ isLowHalf u.number = false) :
    escape (.char 'u' :: (u.digits ++ more)) = .ok (point u.number, 5) := by
  simp only [escape, numericEscape, u.unit_append, ok_bind, h]
  rfl

/-- An escape by a pair takes both of its halves. -/
lemma escape_pair (high low : SpelledUnit)
    (h : isHighHalf high.number = true ∧ isLowHalf low.number = true) :
    escape (.char 'u' :: (high.digits ++ .char '\\' :: .char 'u' :: (low.digits ++ more)))
      = .ok (point (joinHalves high.number low.number), 11) := by
  have hlow : isLowHalf high.number = false := by
    have hhigh := h.1
    simp only [isHighHalf, isLowHalf, Bool.and_eq_true, decide_eq_true_eq, Bool.and_eq_false_iff,
      decide_eq_false_iff_not] at hhigh ⊢
    omega
  simp only [escape, numericEscape, high.unit_append, high.drop_append, low.unit_append, ok_bind, h,
    hlow]
  rfl

/-- Code points that are to be passed over are passed over. -/
lemma textBody_skip (t more : Text) : textBody t.length (t ++ more) = textBody 0 more := by
  induction t with
  | nil => rfl
  | cons c t ih =>
    rw [List.length_cons, List.cons_append, textBody]
    exact ih

/-- What comes after an escape, if the escape takes so many code points. -/
lemma textBody_escape (spelled : Text) {c : CodePoint}
    (h : escape (spelled ++ more) = .ok (c, spelled.length)) :
    textBody 0 (.char '\\' :: (spelled ++ more))
      = textBody 0 more >>= fun (t, after) => .ok (c :: t, after) := by
  rw [textBody, h, ok_bind]
  simp only [textBody_skip]
  rfl

/-- What is spelled for a code point reads as the code point. -/
lemma textBody_piece (p : Piece) :
    textBody 0 (p.text ++ more)
      = textBody 0 more >>= fun (t, after) => .ok (p.codePoint :: t, after) := by
  cases p with
  | plain c h =>
    simp only [Piece.text, List.cons_append, List.nil_append]
    rw [textBody, if_neg (Nat.not_lt.mpr h.1)]
    · rfl
    · exact h.2.1
    · exact h.2.2
  | letter c d h => exact textBody_escape more [c] (escape_letter _ h)
  | unit u h =>
    refine textBody_escape more (.char 'u' :: u.digits) ?_
    rw [List.length_cons, u.length_digits]
    exact escape_unit more u h
  | pair high low h =>
    -- Both halves of a pair are taken at once, so that eleven code points are passed over.
    refine textBody_escape more
      (.char 'u' :: (high.digits ++ .char '\\' :: .char 'u' :: low.digits)) ?_
    have hlength :
        (.char 'u' :: (high.digits ++ .char '\\' :: .char 'u' :: low.digits) : Text).length
          = 11 := by
      simp [high.length_digits, low.length_digits]
    rw [hlength]
    simp only [List.cons_append, List.append_assoc]
    exact escape_pair more high low h

/-- A text between quotes is read. -/
theorem textBody_quoted (ps : List Piece) (rest : Text) :
    textBody 0 (ps.flatMap Piece.text ++ .char '"' :: rest) = .ok (content ps, rest) := by
  induction ps with
  | nil => rfl
  | cons p ps ih =>
    rw [List.flatMap_cons, List.append_assoc, textBody_piece _ p, ih]
    rfl

end Strict

/-! ### Texts that are written -/

/-- A number of 16 bits, spelled by four hexadecimal digits. -/
def SpelledUnit.ofNat (n : Nat) (h : n < 0x10000) : SpelledUnit where
  digits := Text.hex 4 n
  number := n
  length_digits := by rw [Text.hex_four h]; rfl
  hex4?_digits := by
    have hfirst : n / 16 / 16 / 16 < 16 := by omega
    rw [Text.hex_four h]
    simp only [hex4?, CodePoint.hexDigit?_digitChar hfirst,
      CodePoint.hexDigit?_digitChar (Nat.mod_lt _ (by decide : 0 < 16)), Option.bind_eq_bind,
      Option.bind_some, Option.pure_def, Option.some.injEq]
    omega

/-- A character is no half of a surrogate pair. -/
lemma isHalf_char (c : Char) : isHighHalf c.toNat = false ∧ isLowHalf c.toNat = false := by
  have hvalid : c.toNat < 0xD800 ∨ 0xDFFF < c.toNat ∧ c.toNat < 0x110000 := c.valid
  simp only [isHighHalf, isLowHalf, Bool.and_eq_false_iff, decide_eq_false_iff_not]
  omega

/-- A number past 16 bits is taken apart into the halves of a surrogate pair. -/
lemma isPair_halves {n : Nat} (hlow : 0x10000 ≤ n) (hhigh : n < 0x110000) :
    isHighHalf (0xD800 + (n - 0x10000) / 0x400) = true ∧
      isLowHalf (0xDC00 + (n - 0x10000) % 0x400) = true ∧
      joinHalves (0xD800 + (n - 0x10000) / 0x400) (0xDC00 + (n - 0x10000) % 0x400) = n := by
  obtain ⟨k, rfl⟩ := Nat.exists_eq_add_of_le hlow
  rw [Nat.add_sub_cancel_left]
  have hquotient : k / 0x400 < 0x400 := by omega
  have hremainder : k % 0x400 < 0x400 := Nat.mod_lt _ (by decide)
  unfold isHighHalf isLowHalf joinHalves
  simp only [Bool.and_eq_true, decide_eq_true_eq]
  omega

lemma unitEscape_eq {n : Nat} (h : n < 0x10000) :
    unitEscape n = .char '\\' :: .char 'u' :: (SpelledUnit.ofNat n h).digits := rfl

/-- The escape of a character by number spells it. -/
lemma exists_numeric_eq (c : Char) :
    ∃ p : Piece, p.text = numericEscapeText c.toNat ∧ p.codePoint = .char c := by
  have hpoint : point c.toNat = .char c := point_value (.char c)
  have hvalid : c.toNat < 0xD800 ∨ 0xDFFF < c.toNat ∧ c.toNat < 0x110000 := c.valid
  unfold numericEscapeText
  split
  case isTrue h => exact ⟨.unit (.ofNat c.toNat h) (isHalf_char c), rfl, hpoint⟩
  case isFalse h =>
    obtain ⟨hhigh, hlow, hjoin⟩ := isPair_halves (Nat.le_of_not_lt h) (by omega)
    refine ⟨.pair (.ofNat _ (by omega)) (.ofNat _ (by omega)) ⟨hhigh, hlow⟩, ?_,
      (congrArg point hjoin).trans hpoint⟩
    rw [unitEscape_eq, unitEscape_eq, Piece.text, List.cons_append, List.cons_append]

/-- What is written for a code point spells it. In ASCII the code point has to have bytes: the
escapes of two halves would be read as a pair. -/
lemma exists_piece_eq {ascii : Bool} {c : CodePoint} (hunicode : ascii = true → ∃ d, c = .char d) :
    ∃ p : Piece, p.text = pointText ascii c ∧ p.codePoint = c := by
  unfold pointText
  split
  case h_8 hquote hbackslash _ _ _ _ _ =>
    split
    case isTrue hescaped =>
      have hchar : ∃ d, c = .char d := by
        rcases hescaped with hcontrol | ⟨hascii, -⟩
        · cases c with
          | char d => exact ⟨d, rfl⟩
          | lone half =>
            rw [CodePoint.value] at hcontrol
            omega
        · exact hunicode hascii
      obtain ⟨d, rfl⟩ := hchar
      exact exists_numeric_eq d
    case isFalse hplain =>
      rw [not_or] at hplain
      exact ⟨.plain c ⟨Nat.le_of_not_lt hplain.1, hquote, hbackslash⟩, rfl, rfl⟩
  all_goals exact ⟨.letter _ _ rfl, rfl, rfl⟩

/-- What is written for a text spells it. -/
lemma exists_pieces_eq {ascii : Bool} {t : Text} (hunicode : ascii = true → t.IsUnicode) :
    ∃ ps : List Piece, quoted ps = textText ascii t ∧ content ps = t := by
  have hpieces : ∃ ps : List Piece, ps.flatMap Piece.text = t.flatMap (pointText ascii) ∧
      content ps = t := by
    induction t with
    | nil => exact ⟨[], rfl, rfl⟩
    | cons c t ih =>
      obtain ⟨ps, htext, hcontent⟩ := ih fun h d hd => hunicode h d (List.mem_cons_of_mem c hd)
      obtain ⟨p, hp, hc⟩ := exists_piece_eq fun h => hunicode h c List.mem_cons_self
      refine ⟨p :: ps, ?_, ?_⟩
      · rw [List.flatMap_cons, List.flatMap_cons, hp, htext]
      · rw [← hcontent, ← hc]
        rfl
  obtain ⟨ps, htext, hcontent⟩ := hpieces
  exact ⟨ps, by rw [quoted, htext]; rfl, hcontent⟩

end Json

end Schematic
