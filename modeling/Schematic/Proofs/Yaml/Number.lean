import Mathlib.Data.List.TakeWhile
import Schematic.Proofs.Json.Every
import Schematic.Proofs.Json.Number
import Schematic.Proofs.Text.Numeral
import Schematic.Proofs.Text.Split
import Schematic.Proofs.Yaml.Node

/-!
# Numbers are read

A number of JSON is read as a plain text. If it is whole, or if it has a point and a sign in its
exponent, its spelling has the tag of its kind, and its value is the number. Any other is a text.
-/

namespace Schematic

/-- A number is spelled as YAML spells numbers: an exponent comes after a fraction, and has a
sign. -/
def Json.Literal.IsYaml (l : Json.Literal) : Prop :=
  ∀ x ∈ l.exponent, l.fraction.isSome = true ∧ x.sign.isSome = true

instance (l : Json.Literal) : Decidable l.IsYaml :=
  inferInstanceAs (Decidable (∀ x ∈ l.exponent, _))

namespace Yaml

variable {t : Text}

/-! ### Spellings -/

/-- A text that starts by no word's first letter is none of the words. -/
lemma isWord_eq_false {words : List String} {c : CodePoint}
    (h : ∀ w ∈ words, (Text.ofString w).head? ≠ some c) : Tag.isWord words (c :: t) = false := by
  rw [Tag.isWord, List.any_eq_false]
  intro w hw heq
  rw [beq_iff_eq] at heq
  exact h w hw (by rw [← heq]; rfl)

/-- A numeral starts with a digit or with a minus sign. -/
def StartsNumeral (t : Text) : Prop := ∃ c u, t = c :: u ∧ (c.isDigit = true ∨ c = .char '-')

/-- What starts like a numeral is no word. -/
lemma isWord_of_startsNumeral {words : List String} (h : StartsNumeral t)
    (hwords : ∀ d < 11, ∀ w ∈ words, (Text.ofString w).head? ≠
      some (.char (if d = 10 then '-' else Nat.digitChar d))) : Tag.isWord words t = false := by
  obtain ⟨c, u, rfl, hc⟩ := h
  refine isWord_eq_false ?_
  rcases hc with hc | rfl
  · obtain ⟨d, hd, rfl⟩ := CodePoint.isDigit_iff.mp hc
    have hd' := hwords d (by omega)
    rwa [if_neg (by omega)] at hd'
  · exact hwords 10 (by decide)

/-- The tag of a numeral is told by the forms of numbers and times. -/
lemma ofPlain_eq (hnumeral : t.IsNumeral) (hstart : StartsNumeral t) :
    Tag.ofPlain t = if Tag.isFloat t then .float else if Tag.isInt t then .int else
      if Tag.isTimestamp t then .timestamp else .text := by
  have hline : ¬ (1 < t.length ∧ t.getLast? = some (.char '\n')) := by
    rintro ⟨-, hlast⟩
    exact (hnumeral _ (List.mem_of_getLast? hlast)).ne rfl (by decide) rfl
  have hempty : t.isEmpty = false := by
    obtain ⟨c, u, rfl, -⟩ := hstart
    rfl
  rw [Tag.ofPlain]
  simp only [if_neg hline, Tag.isBool, Tag.isNull, hempty, Bool.false_or]
  rw [isWord_of_startsNumeral hstart (by decide), isWord_of_startsNumeral hstart (by decide),
    isWord_of_startsNumeral hstart (by decide), isWord_of_startsNumeral hstart (by decide),
    isWord_of_startsNumeral hstart (by decide)]
  simp

open Json (Literal Exponent)
open Json.Numeral (signText fractionText)

/-- A digit in front means that there is no sign. -/
lemma sign_of_isDigit {c : CodePoint} (hc : c.isDigit = true) (rest : Text) :
    Text.sign (c :: rest) = (false, c :: rest) := by
  have hminus := Json.isDigit_ne hc (d := '-') rfl
  have hplus := Json.isDigit_ne hc (d := '+') rfl
  unfold Text.sign
  split
  · simp_all
  · simp_all
  · rfl

lemma sign_signText {c : CodePoint} (negative : Bool) (hc : c.isDigit = true) (rest : Text) :
    Text.sign (signText negative ++ c :: rest) = (negative, c :: rest) := by
  cases negative with
  | true => rfl
  | false => exact sign_of_isDigit hc rest

lemma unsigned_eq (t : Text) : Tag.unsigned t = (Text.sign t).2 := by
  unfold Tag.unsigned Text.sign
  split <;> simp

lemma isNumeral_signText (negative : Bool) : (signText negative).IsNumeral := by
  cases negative <;> simp [signText, Text.IsNumeral, CodePoint.IsNumeral]

section

variable (l : Literal)

lemma exists_whole_eq : ∃ c cs, l.whole = c :: cs ∧ c.isDigit = true :=
  Json.exists_whole_eq l.isProper

lemma sign_text : Text.sign l.text = (l.negative, l.body) := by
  obtain ⟨c, cs, hc, hbody⟩ := l.exists_body_eq
  rw [Literal.text, hbody]
  exact sign_signText l.negative hc cs

lemma unsigned_text : Tag.unsigned l.text = l.body := by rw [unsigned_eq, sign_text]

/-- A number starts like a numeral. -/
lemma startsNumeral_text : StartsNumeral l.text := by
  obtain ⟨c, cs, hc, hbody⟩ := l.exists_body_eq
  rw [Literal.text, hbody]
  cases l.negative with
  | true => exact ⟨.char '-', _, rfl, .inr rfl⟩
  | false => exact ⟨c, _, rfl, .inl hc⟩

/-- A fraction is written like a numeral. -/
lemma isNumeral_fractionText : (fractionText l.fraction).IsNumeral := by
  cases hf : l.fraction with
  | none => simp [fractionText, Text.IsNumeral]
  | some f =>
    exact List.forall_mem_cons.mpr
      ⟨by simp [CodePoint.IsNumeral], (l.isProper.fraction_isDigits f hf).isNumeral⟩

/-- An exponent is written like a numeral. -/
lemma isNumeral_optionText (x : Option Exponent) : (Exponent.optionText x).IsNumeral := by
  cases x with
  | none => simp [Exponent.optionText, Text.IsNumeral]
  | some x =>
    refine List.forall_mem_cons.mpr ⟨?_, Text.IsNumeral.append ?_ x.digits_isDigits.isNumeral⟩
    · cases x.upper <;> simp [CodePoint.IsNumeral]
    · cases x.sign with
      | none => simp [Exponent.signText, Text.IsNumeral]
      | some negative =>
        cases negative <;> simp [Exponent.signText, Text.IsNumeral, CodePoint.IsNumeral]

lemma isNumeral_body : l.body.IsNumeral :=
  l.whole_isDigits.isNumeral.append
    ((isNumeral_fractionText l).append (isNumeral_optionText l.exponent))

lemma isNumeral_text : l.text.IsNumeral := (isNumeral_signText l.negative).append (isNumeral_body l)

/-- A whole part is grouped as decimal digits are. -/
lemma isGrouped_whole : Tag.isGrouped l.whole = true := by
  have hdigits := l.whole_isDigits
  obtain ⟨c, cs, hw, hc⟩ := exists_whole_eq l
  rw [hw] at hdigits ⊢
  simp only [Tag.isGrouped, hc, Bool.true_and, List.all_eq_true, Tag.isDigitOrUnderscore]
  intro d hd
  rw [hdigits d (List.mem_cons_of_mem c hd), Bool.true_or]

lemma splitAll_whole : Text.splitAll (.char ':') l.whole = [l.whole] :=
  Text.splitAll_eq_self l.whole_isDigits.isNumeral.not_mem_colon

lemma isEmpty_text : l.text.isEmpty = false := by
  obtain ⟨c, u, hcu, -⟩ := startsNumeral_text l
  rw [hcu]
  rfl

lemma isEmpty_whole : l.whole.isEmpty = false := by simpa using l.whole_ne_nil

lemma isEmpty_digits (x : Exponent) : x.digits.isEmpty = false := by simpa using x.digits_ne_nil

lemma not_mem_point_of_isDigits {t : Text} (h : t.IsDigits) : .char '.' ∉ t :=
  fun hmem => Json.isDigit_ne (h _ hmem) rfl rfl

lemma not_mem_point_signText (negative : Bool) : .char '.' ∉ signText negative := by
  cases negative <;> simp [signText]

/-! ### Integers -/

/-- A digit that is no zero starts a positive number. -/
lemma startsPositive_of_ne {c : CodePoint} (hc : c.isDigit = true)
    (h : (c :: t).head? ≠ some (.char '0')) : Tag.startsPositive (c :: t) = true := by
  obtain ⟨d, hd, rfl⟩ := CodePoint.isDigit_iff.mp hc
  rw [Tag.startsPositive]
  interval_cases d
  · exact absurd rfl h
  all_goals rfl

/-- A number without a point is no floating-point number. -/
lemma isFloat_of_fraction_eq_none (hf : l.fraction = none) : Tag.isFloat l.text = false := by
  have hexponent : .char '.' ∉ Exponent.optionText l.exponent := by
    cases l.exponent with
    | none => exact List.not_mem_nil
    | some x =>
      rw [Exponent.optionText, Exponent.text, List.mem_cons, List.mem_append, not_or, not_or]
      refine ⟨by cases x.upper <;> decide, ?_, not_mem_point_of_isDigits x.digits_isDigits⟩
      cases x.sign with
      | none => exact List.not_mem_nil
      | some negative => cases negative <;> simp [Exponent.signText]
  have hpoint : .char '.' ∉ l.text := by
    rw [Literal.text, Literal.body, hf, fractionText, List.nil_append, List.mem_append,
      List.mem_append, not_or, not_or]
    exact ⟨not_mem_point_signText _, not_mem_point_of_isDigits l.whole_isDigits, hexponent⟩
  rw [Tag.isFloat, Text.splitFirst?_eq_none hpoint]

variable {l} (hf : l.fraction = none) (hx : l.exponent = none)

include hf hx

lemma body_of_whole : l.body = l.whole := by
  rw [Literal.body, hf, hx]
  simp [fractionText, Exponent.optionText]

/-- A whole number is an integer. -/
lemma ofPlain_of_whole : Tag.ofPlain l.text = .int := by
  have hint : Tag.isInt l.text = true := by
    have hgrouped := isGrouped_whole l
    have hsplit := splitAll_whole l
    have hhead : l.whole = [.char '0'] ∨ l.whole.head? ≠ some (.char '0') := l.isProper.whole_head
    obtain ⟨c, cs, hw, hc⟩ := exists_whole_eq l
    rw [Tag.isInt, unsigned_text, body_of_whole hf hx]
    rw [hw] at hgrouped hsplit hhead ⊢
    rcases hhead with hzero | hhead
    · rw [hzero]
      rfl
    · have hpositive : Tag.startsPositive (c :: cs) = true := startsPositive_of_ne hc hhead
      split
      · simp_all
      · simp [hsplit, hpositive, hgrouped]
  rw [ofPlain_eq (isNumeral_text l) (startsNumeral_text l), isFloat_of_fraction_eq_none l hf, hint]
  rfl

omit hf hx

/-- A whole part that is not too long is read as its value. -/
lemma integer_whole (hlength : l.whole.length ≤ Text.maxIntegerDigits) :
    Text.integer 10 l.whole = .ok (Json.digitsValue l.whole) := by
  have hdigits := l.whole_isDigits
  have hsign : Text.sign l.whole = (false, l.whole) := by
    obtain ⟨c, cs, hw, hc⟩ := exists_whole_eq l
    rw [hw, sign_of_isDigit hc]
  have hbase : Text.afterBase 10 l.whole = l.whole := by
    unfold Text.afterBase
    split
    · simp
    · rfl
  have hcount : ¬ Text.maxIntegerDigits
      < (l.whole.takeWhile fun c => c.digit?.isSome).length :=
    Nat.not_lt.mpr (Nat.le_trans (List.takeWhile_sublist _).length_le hlength)
  rw [Text.integer, hdigits.isNumeral.trimNumeral_eq, hsign]
  simp only [hbase, isEmpty_whole, Bool.false_eq_true, if_false, true_and, if_neg hcount,
    Text.natural?_eq hdigits]

/-- A whole number that is not too long is read as its value. -/
lemma unsignedInteger_whole (hlength : l.whole.length ≤ Text.maxIntegerDigits) :
    Scalar.unsignedInteger l.whole = .ok (Json.digitsValue l.whole) := by
  have hinteger := integer_whole hlength
  have hcolon : l.whole.contains (.char ':') = false := by
    rw [List.contains_eq_mem, decide_eq_false_iff_not]
    exact l.whole_isDigits.isNumeral.not_mem_colon
  have hhead : l.whole = [.char '0'] ∨ l.whole.head? ≠ some (.char '0') := l.isProper.whole_head
  rcases hhead with hzero | hhead
  · rw [hzero]
    rfl
  · unfold Scalar.unsignedInteger
    split
    · exact absurd ‹l.whole = []› l.whole_ne_nil
    · simp_all
    · simp_all
    · simp_all
    · simp_all
    · rw [hcolon, if_neg (by simp), Scalar.integerIn, hinteger]
      rfl

include hf hx

/-- A whole number of not too many digits is read. -/
lemma integer_of_whole (hlength : l.whole.length ≤ Text.maxIntegerDigits) :
    Scalar.integer l.text
      = .ok (if l.negative then -Json.digitsValue l.whole else Json.digitsValue l.whole) := by
  have hwhole := unsignedInteger_whole hlength
  rw [Scalar.integer, (isNumeral_text l).without_eq, Scalar.signed, isEmpty_text, sign_text,
    body_of_whole hf hx]
  simp only [Bool.false_eq_true, if_false, ok_bind, hwhole]
  rfl

end

/-! ### Floating-point numbers -/

section

variable {l : Literal} {f : Text}

lemma text_of_fraction (hf : l.fraction = some f) :
    l.text
      = (signText l.negative ++ l.whole) ++ .char '.' :: (f ++ Exponent.optionText l.exponent) := by
  simp [Literal.text, Literal.body, hf, fractionText]

lemma body_of_fraction (hf : l.fraction = some f) :
    l.body = l.whole ++ .char '.' :: (f ++ Exponent.optionText l.exponent) := by
  simp [Literal.body, hf, fractionText]

/-- A sign has to stand in an exponent. -/
lemma isExponent_optionText (x : Option Exponent) :
    Tag.isExponent (Exponent.optionText x) = true ↔ ∀ y ∈ x, y.sign.isSome = true := by
  cases x with
  | none => simp [Exponent.optionText, Tag.isExponent]
  | some x =>
    obtain ⟨c, cs, hdigits⟩ := List.exists_cons_of_ne_nil x.digits_ne_nil
    have hall : x.digits.all CodePoint.isDigit = true := List.all_eq_true.mpr x.digits_isDigits
    rw [Exponent.optionText, Exponent.text]
    cases hsign : x.sign with
    | some negative =>
      have hone : (if negative then CodePoint.char '-' else .char '+').isOneOf "+-" = true := by
        cases negative <;> decide
      simp [Exponent.signText, Tag.isExponent, x.isOneOf_letter, hone, isEmpty_digits x, hall,
        hsign]
    | none =>
      have hc : c.isOneOf "+-" = false := by
        obtain ⟨d, hd, rfl⟩ :=
          CodePoint.isDigit_iff.mp (x.digits_isDigits c (hdigits ▸ List.mem_cons_self))
        interval_cases d <;> decide
      simp [Exponent.signText, hdigits, Tag.isExponent, hc, hsign]

/-- A fraction is one of YAML if the exponent after it has a sign. -/
lemma isFraction_append (hf : l.fraction = some f) :
    Tag.isFraction (f ++ Exponent.optionText l.exponent) = true ↔
      ∀ x ∈ l.exponent, x.sign.isSome = true := by
  have hdigits : ∀ c ∈ f, Tag.isDigitOrUnderscore c = true := by
    intro c hc
    rw [Tag.isDigitOrUnderscore, l.isProper.fraction_isDigits f hf c hc, Bool.true_or]
  have hexponent : (Exponent.optionText l.exponent).dropWhile Tag.isDigitOrUnderscore
      = Exponent.optionText l.exponent := by
    cases l.exponent with
    | none => rfl
    | some x =>
      have hletter : Tag.isDigitOrUnderscore (if x.upper then CodePoint.char 'E' else .char 'e')
          = false := by
        cases x.upper <;> decide
      rw [Exponent.optionText, Exponent.text, List.dropWhile_cons_of_neg (by rw [hletter]; decide)]
  rw [Tag.isFraction, List.dropWhile_append_of_pos hdigits, hexponent, isExponent_optionText]

/-- A number with a point is a floating-point number if its exponent has a sign. -/
lemma isFloat_of_fraction (hf : l.fraction = some f) :
    Tag.isFloat l.text = true ↔ ∀ x ∈ l.exponent, x.sign.isSome = true := by
  have hbefore : .char '.' ∉ signText l.negative ++ l.whole := by
    rw [List.mem_append, not_or]
    exact ⟨not_mem_point_signText _, not_mem_point_of_isDigits l.whole_isDigits⟩
  have hword : Tag.isWord ["inf", "Inf", "INF"] (f ++ Exponent.optionText l.exponent) = false := by
    refine isWord_of_startsNumeral ?_ (by decide)
    obtain ⟨c, cs, hc⟩ := List.exists_cons_of_ne_nil (l.isProper.fraction_ne_nil f hf)
    exact ⟨c, _, by rw [hc]; rfl,
      .inl (l.isProper.fraction_isDigits f hf c (hc ▸ List.mem_cons_self))⟩
  have hempty : (signText l.negative ++ l.whole).isEmpty = false := by
    simpa using fun _ => l.whole_ne_nil
  have hunsigned : Tag.unsigned (signText l.negative ++ l.whole) = l.whole := by
    obtain ⟨c, cs, hw, hc⟩ := exists_whole_eq l
    rw [unsigned_eq, hw, sign_signText l.negative hc]
  rw [← isFraction_append hf, Tag.isFloat, text_of_fraction hf, Text.splitFirst?_append hbefore]
  simp only [hword, Bool.false_eq_true, and_false, if_false, hempty, hunsigned, splitAll_whole,
    isGrouped_whole, Bool.true_and]

lemma ofPlain_of_fraction (hf : l.fraction = some f) (hx : ∀ x ∈ l.exponent, x.sign.isSome = true) :
    Tag.ofPlain l.text = .float := by
  rw [ofPlain_eq (isNumeral_text l) (startsNumeral_text l), (isFloat_of_fraction hf).mpr hx]
  rfl

/-- The sign of an exponent is taken off. -/
lemma sign_exponent (x : Exponent) :
    Text.sign (Exponent.signText x.sign ++ x.digits) = (x.sign.getD false, x.digits) := by
  cases hsign : x.sign with
  | some negative => cases negative <;> rfl
  | none =>
    obtain ⟨c, cs, hdigits⟩ := List.exists_cons_of_ne_nil x.digits_ne_nil
    rw [hdigits]
    exact sign_of_isDigit (x.digits_isDigits c (hdigits ▸ List.mem_cons_self)) cs

/-- An exponent is read as its value. -/
lemma exponent?_optionText (x : Option Exponent) :
    Text.exponent? (Exponent.optionText x) = some ((x.map Exponent.value).getD 0) := by
  cases x with
  | none => rfl
  | some x =>
    have hdigits := Text.natural?_eq x.digits_isDigits
    rw [Exponent.optionText, Exponent.text, Text.exponent?, if_pos x.isOneOf_letter, sign_exponent]
    simp only [isEmpty_digits x, Bool.false_eq_true, if_false, hdigits, Option.map_some,
      Option.getD_some]
    rfl

/-- Digits are taken up to what is none. -/
lemma takeWhile_isAnyDigit {t : Text} (rest : Text) (ht : t.IsDigits)
    (hrest : ∀ c, rest.head? = some c → Text.isAnyDigit c = false) :
    (t ++ rest).takeWhile Text.isAnyDigit = t ∧ (t ++ rest).dropWhile Text.isAnyDigit = rest := by
  have hdigits : ∀ c ∈ t, Text.isAnyDigit c = true :=
    fun c hc => CodePoint.isAnyDigit_of_isDigit (ht c hc)
  have hend : rest.takeWhile Text.isAnyDigit = [] ∧ rest.dropWhile Text.isAnyDigit = rest := by
    cases rest with
    | nil => exact ⟨rfl, rfl⟩
    | cons c rest => simp [hrest c rfl]
  rw [List.takeWhile_append_of_pos hdigits, List.dropWhile_append_of_pos hdigits, hend.1, hend.2,
    List.append_nil]
  exact ⟨rfl, rfl⟩

/-- What starts with a digit is no word. -/
lemma asciiLower_ne {c : CodePoint} (hc : c.isDigit = true) (w : Text)
    (hw : ∀ d < 10, w.head? ≠ some (.char (Nat.digitChar d))) : Text.asciiLower (c :: t) ≠ w := by
  rintro rfl
  obtain ⟨d, hd, rfl⟩ := CodePoint.isDigit_iff.mp hc
  refine hw d hd ?_
  interval_cases d <;> rfl

/-- A number with a fraction is read as a double. -/
lemma unsignedDouble?_eq (hf : l.fraction = some f) :
    Text.unsignedDouble? false l.body
      = some (Double.ofDecimal false (Json.digitsValue (l.whole ++ f))
        ((l.exponent.map Exponent.value).getD 0 - f.length)) := by
  have hfraction := l.isProper.fraction_isDigits f hf
  have hwhole := takeWhile_isAnyDigit (.char '.' :: (f ++ Exponent.optionText l.exponent))
    l.whole_isDigits (by rintro _ ⟨⟩; decide)
  have hafter := takeWhile_isAnyDigit (Exponent.optionText l.exponent) hfraction (by
    cases l.exponent with
    | none => simp [Exponent.optionText]
    | some x =>
      rintro _ ⟨⟩
      cases x.upper <;> decide)
  have hnatural := Text.natural?_eq (l.whole_isDigits.append hfraction)
  have hexponent := exponent?_optionText l.exponent
  obtain ⟨c, cs, hc, hbody⟩ := l.exists_body_eq
  -- A body starts with a digit, so it is none of the words.
  have hlower (w : Text) (h : ∀ d < 10, w.head? ≠ some (.char (Nat.digitChar d))) :
      Text.asciiLower l.body ≠ w := by
    rw [hbody]
    exact asciiLower_ne hc w h
  rw [Text.unsignedDouble?]
  simp only [hlower (Text.ofString "inf") (by decide),
    hlower (Text.ofString "infinity") (by decide), hlower (Text.ofString "nan") (by decide),
    or_self, if_false]
  rw [body_of_fraction hf]
  simp only [hwhole, hafter, isEmpty_whole, Bool.false_and, Bool.false_eq_true, if_false, hnatural,
    hexponent]
  rfl

/-- The sign of a double is put on last. -/
lemma neg_ofSteps (n d : Nat) : (Double.ofSteps false n d).neg = Double.ofSteps true n d := by
  have hparts (mantissa exponent : Nat) : (Double.ofParts false mantissa exponent).neg
      = Double.ofParts true mantissa exponent := by
    unfold Double.ofParts
    split <;> rfl
  unfold Double.ofSteps
  dsimp only
  split <;> exact hparts _ _

lemma neg_ofRatio (n d : Nat) : (Double.ofRatio false n d).neg = Double.ofRatio true n d := by
  rw [Double.ofRatio, Double.ofRatio, neg_ofSteps]

lemma neg_ofDecimal (digits : Nat) (power : Int) :
    (Double.ofDecimal false digits power).neg = Double.ofDecimal true digits power := by
  rw [Double.ofDecimal, Double.ofDecimal, apply_ite Double.neg, apply_ite Double.neg,
    apply_ite Double.neg, neg_ofRatio, neg_ofRatio]
  rfl

/-- The exponent, announced by a small letter. -/
def loweredExponent (x : Exponent) : Exponent := { x with upper := false }

lemma map_value_lowered (x : Option Exponent) :
    (x.map loweredExponent).map Exponent.value = x.map Exponent.value := by
  cases x <;> rfl

/-- The number with its exponent announced by a small letter. -/
def lowered (l : Literal) : Literal where
  negative := l.negative
  whole := l.whole
  fraction := l.fraction
  exponent := l.exponent.map loweredExponent
  isProper := by
    rw [map_value_lowered]
    exact l.isProper

lemma not_mem_upper_of_isDigits {t : Text} (h : t.IsDigits) : .char 'E' ∉ t :=
  fun hmem => Json.isDigit_ne (h _ hmem) rfl rfl

/-- An exponent in lower case has a small letter. -/
lemma lower_optionText (x : Option Exponent) : (Exponent.optionText x).lower
    = Exponent.optionText (x.map loweredExponent) := by
  cases x with
  | none => rfl
  | some x =>
    have htail : (Exponent.signText x.sign ++ x.digits).lower
        = Exponent.signText x.sign ++ x.digits := by
      refine Text.IsNumeral.lower_eq ?_ ?_
      · exact fun c hc => isNumeral_optionText (some x) c (List.mem_cons_of_mem _ hc)
      · rw [List.mem_append, not_or]
        refine ⟨?_, not_mem_upper_of_isDigits x.digits_isDigits⟩
        cases x.sign with
        | none => exact List.not_mem_nil
        | some negative => cases negative <;> simp [Exponent.signText]
    have hletter : (if x.upper then CodePoint.char 'E' else .char 'e').lower = [.char 'e'] := by
      cases x.upper <;> decide
    rw [Exponent.optionText, Exponent.text, Text.lower, List.flatMap_cons, hletter, ← Text.lower,
      htail]
    rfl

/-- A number in lower case is a number with small letters. -/
lemma lower_text (l : Literal) : l.text.lower = (lowered l).text := by
  have hfraction : (fractionText l.fraction).lower = fractionText l.fraction := by
    refine (isNumeral_fractionText l).lower_eq ?_
    cases hf : l.fraction with
    | none => exact List.not_mem_nil
    | some f =>
      rw [fractionText, List.mem_cons, not_or]
      exact ⟨by decide, not_mem_upper_of_isDigits (l.isProper.fraction_isDigits f hf)⟩
  have hsign : (signText l.negative).lower = signText l.negative := by
    cases l.negative <;> decide
  have hwhole := l.whole_isDigits.isNumeral.lower_eq (not_mem_upper_of_isDigits l.whole_isDigits)
  have happend (t u : Text) : (t ++ u).lower = t.lower ++ u.lower := List.flatMap_append
  rw [Literal.text, Literal.body, happend, happend, happend, hsign, hwhole, hfraction,
    lower_optionText]
  rfl

/-- A number with a fraction is read as a double, without its sign. -/
lemma double?_body (hf : l.fraction = some f) :
    Text.double? l.body = some (Double.ofDecimal false (Json.digitsValue (l.whole ++ f))
      ((l.exponent.map Exponent.value).getD 0 - f.length)) := by
  have hsign : Text.sign l.body = (false, l.body) := by
    obtain ⟨c, cs, hc, hbody⟩ := l.exists_body_eq
    rw [hbody]
    exact sign_of_isDigit hc cs
  rw [Text.double?, (isNumeral_body l).trimNumeral_eq, hsign]
  exact unsignedDouble?_eq hf

/-- A number with a fraction is read. -/
lemma double_of_fraction (hf : l.fraction = some f) :
    Scalar.double l.text = .ok (Double.ofDecimal l.negative (Json.digitsValue (l.whole ++ f))
      ((l.exponent.map Exponent.value).getD 0 - f.length)) := by
  have hdouble := double?_body (l := lowered l) hf
  have hvalue : (lowered l).exponent.map Exponent.value = l.exponent.map Exponent.value :=
    map_value_lowered l.exponent
  have hnegative : (lowered l).negative = l.negative := rfl
  have hhead : ∀ w : Text, (∀ d < 10, w.head? ≠ some (.char (Nat.digitChar d))) →
      (lowered l).body ≠ w := by
    rintro w hw rfl
    obtain ⟨c, cs, hc, hbody⟩ := (lowered l).exists_body_eq
    obtain ⟨d, hd, rfl⟩ := CodePoint.isDigit_iff.mp hc
    exact hw d hd (by rw [hbody]; rfl)
  have hcolon : (lowered l).body.contains (.char ':') = false := by
    -- Without a colon the number is not in base sixty.
    rw [List.contains_eq_mem, decide_eq_false_iff_not]
    exact (isNumeral_body _).not_mem_colon
  rw [hvalue] at hdouble
  rw [Scalar.double, (isNumeral_text l).without_eq, lower_text, Scalar.signed, isEmpty_text,
    sign_text, hnegative]
  simp only [Bool.false_eq_true, if_false, ok_bind, hhead (Text.ofString ".inf") (by decide),
    hhead (Text.ofString ".nan") (by decide), hcolon, Scalar.doubleOf, hdouble]
  cases l.negative with
  | true =>
    rw [← neg_ofDecimal]
    simp only [if_true]
    rfl
  | false =>
    simp only [Bool.false_eq_true, if_false]
    rfl

end

/-! ### Numbers and texts -/

/-- A number that is spelled as YAML spells numbers is read. -/
theorem scalarValue_text {l : Literal} (hl : l.IsYaml) (hshort : l.IsShort) (m : Mark) :
    scalarValue (.ofPlain l.text) l.text m = .ok l.numeral.value.toValue := by
  cases hf : l.fraction with
  | some f =>
    rw [ofPlain_of_fraction hf fun x hx => (hl x hx).2, scalarValue, Scalar.value?,
      double_of_fraction hf]
    have hvalue :=
      Json.Numeral.value_of_fraction l.negative l.whole f (l.exponent.map Exponent.value)
    rw [← hf] at hvalue
    rw [Literal.numeral, hvalue]
    rfl
  | none =>
    have hx : l.exponent = none := by
      cases hx : l.exponent with
      | none => rfl
      | some x =>
        have hsome := (hl x hx).1
        rw [hf] at hsome
        cases hsome
    have hwhole : l.numeral.isWhole = true := by rw [Literal.numeral, hf, hx]; rfl
    rw [ofPlain_of_whole hf hx, scalarValue, Scalar.value?, integer_of_whole hf hx (hshort hwhole),
      Json.Numeral.value, if_pos hwhole]
    rfl

/-- What follows the whole part of a number with an exponent starts with a point or with a
letter. -/
lemma exists_afterWhole_eq (l : Literal) {x : Exponent} (hx : l.exponent = some x) :
    ∃ c u, l.body = l.whole ++ c :: u ∧ c ∈ [CodePoint.char '.', .char 'e', .char 'E'] := by
  rw [Literal.body, hx, Exponent.optionText, Exponent.text]
  cases l.fraction with
  | none => exact ⟨_, _, rfl, by cases x.upper <;> decide⟩
  | some f => exact ⟨_, _, rfl, by decide⟩

/-- A number with an exponent is no integer. -/
lemma isInt_of_exponent {l : Literal} {x : Exponent} (hx : l.exponent = some x) :
    Tag.isInt l.text = false := by
  obtain ⟨c, u, hbody, hc⟩ := exists_afterWhole_eq l hx
  have hcolon := (isNumeral_body l).not_mem_colon
  obtain ⟨d, ds, hw, hd⟩ := exists_whole_eq l
  have hhead : l.whole = [.char '0'] ∨ l.whole.head? ≠ some (.char '0') := l.isProper.whole_head
  rw [Tag.isInt, unsigned_text, hbody]
  rw [hbody] at hcolon
  -- A zero alone could start an octal number, but what follows is no octal digit.
  rcases hhead with hzero | hhead
  · have hbased : Tag.isBased 8 (c :: u) = false := by
      have hdigit : ∀ c ∈ [CodePoint.char '.', .char 'e', .char 'E'],
          (c == .char '_' || (c.hexDigit?.map fun d => decide (d < 8)).getD false) = false := by
        decide
      rw [Tag.isBased, List.all_cons, hdigit c hc]
      simp
    rw [hzero, List.cons_append, List.nil_append]
    simp only
    split
    all_goals simp_all
  · -- Other digits could start a decimal number, but what follows is no digit either.
    have hdigit : ∀ c ∈ [CodePoint.char '.', .char 'e', .char 'E'],
        Tag.isDigitOrUnderscore c = false := by
      decide
    have hgrouped : Tag.isGrouped (l.whole ++ c :: u) = false := by
      rw [hw, List.cons_append, Tag.isGrouped, List.all_append, List.all_cons, hdigit c hc]
      simp
    have hsplit := Text.splitAll_eq_self hcolon
    rw [hw] at hhead hgrouped hsplit ⊢
    split
    · simp_all
    · rw [hsplit]
      simp only [hgrouped, Bool.and_false, Bool.false_and]

/-- A text that starts with a dash, or whose leading digits are not followed by one, is no
timestamp. -/
lemma isTimestamp_eq_false (hnumeral : t.IsNumeral)
    (h : t.head? = some (.char '-') ∨ (t.dropWhile CodePoint.isDigit).head? ≠ some (.char '-')) :
    Tag.isTimestamp t = false := by
  have hline : t.getLast? ≠ some (.char '\n') := fun hlast =>
    (hnumeral _ (List.mem_of_getLast? hlast)).ne rfl (by decide) rfl
  have hread : Timestamp.read? t = none := by
    rw [Timestamp.read?, if_neg hline, Timestamp.digits?]
    split
    case isFalse => rfl
    case isTrue hdigits =>
      have hall := List.all_eq_true.mp hdigits.2
      have hdash : Timestamp.after? '-' (t.drop 4) = none := by
        -- A date has a dash after four digits, and this text has none there.
        cases hrest : t.drop 4 with
        | nil => rfl
        | cons c rest =>
          refine if_neg fun hc => ?_
          rcases h with h | h
          · cases t with
            | nil => cases h
            | cons d t =>
              have hd := hall d List.mem_cons_self
              rw [Option.some.inj h] at hd
              cases hd
          · have hsplit := List.take_append_drop 4 t
            rw [← hsplit, hrest, hc, List.dropWhile_append_of_pos hall] at h
            exact h rfl
      simp only [Option.bind_eq_bind, Option.bind_some, hdash, Option.bind_none]
  rw [Tag.isTimestamp, hread]
  rfl

/-- A number in a spelling that is not one of YAML is a text. -/
theorem ofPlain_of_not_isYaml {l : Literal} (hl : ¬ l.IsYaml) : Tag.ofPlain l.text = .text := by
  obtain ⟨x, hx, hsign⟩ : ∃ x, l.exponent = some x ∧
      (l.fraction.isSome = true → ¬ x.sign.isSome = true) := by
    simpa [Literal.IsYaml] using hl
  have hfloat : Tag.isFloat l.text = false := by
    -- The exponent lacks its sign, or there is no fraction before it.
    cases hf : l.fraction with
    | none => exact isFloat_of_fraction_eq_none l hf
    | some f =>
      rw [← Bool.not_eq_true, isFloat_of_fraction hf]
      exact fun h => hsign (by rw [hf]; rfl) (h x hx)
  have htimestamp : Tag.isTimestamp l.text = false := by
    refine isTimestamp_eq_false (isNumeral_text l) ?_
    rw [Literal.text]
    cases l.negative with
    -- A minus in front is no digit of a date.
    | true => exact .inl rfl
    | false =>
      -- The digits end at a mark of a number, which is no dash.
      obtain ⟨c, u, hbody, hc⟩ := exists_afterWhole_eq l hx
      have hmarks : ∀ c ∈ [CodePoint.char '.', .char 'e', .char 'E'],
          c.isDigit = false ∧ c ≠ .char '-' := by
        decide
      have hdigit := hmarks c hc
      refine .inr ?_
      rw [signText, if_neg (by decide), List.nil_append, hbody,
        List.dropWhile_append_of_pos l.whole_isDigits,
        List.dropWhile_cons_of_neg (by rw [hdigit.1]; decide)]
      exact fun hhead => hdigit.2 (Option.some.inj hhead)
  rw [ofPlain_eq (isNumeral_text l) (startsNumeral_text l), hfloat, isInt_of_exponent hx,
    htimestamp]
  rfl

end Yaml

end Schematic
