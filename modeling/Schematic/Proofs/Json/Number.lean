import Schematic.Json.Strict
import Schematic.Proofs.Fault
import Schematic.Proofs.Json.Grammar
import Schematic.Value.Literal

/-!
# Numbers are read

Both readers take a number apart into the parts of its spelling, as long as what follows does not go
on with it. They differ in one place: the lenient reader bounds the digits of integers, and the
strict one bounds those of the whole part of every number, as it counts them before it knows what
follows.
-/

namespace Schematic.Json

/-- What follows does not go on with a numeral. -/
structure EndsNumeral (rest : Text) : Prop where
  head_isDigit : ∀ c, rest.head? = some c → c.isDigit = false
  head_ne_point : rest.head? ≠ some (.char '.')
  head_isOneOf : ∀ c, rest.head? = some c → c.isOneOf "eE" = false

/-- The digits at the start of a text end where something else comes. -/
lemma takeWhile_isDigit {t rest : Text} (ht : t.IsDigits)
    (hrest : ∀ c, rest.head? = some c → c.isDigit = false) :
    (t ++ rest).takeWhile CodePoint.isDigit = t ∧
      (t ++ rest).dropWhile CodePoint.isDigit = rest := by
  have hend : rest.takeWhile CodePoint.isDigit = [] ∧ rest.dropWhile CodePoint.isDigit = rest := by
    cases rest with
    | nil => exact ⟨rfl, rfl⟩
    | cons c rest => simp [hrest c rfl]
  rw [List.takeWhile_append_of_pos ht, List.dropWhile_append_of_pos ht, hend.1, hend.2,
    List.append_nil]
  exact ⟨rfl, rfl⟩

lemma isDigit_ne {c : CodePoint} (h : c.isDigit = true) {d : Char} (hd : d.isDigit = false) :
    c ≠ .char d := by
  rintro rfl
  rw [CodePoint.isDigit_char] at h
  exact absurd (h.symm.trans hd) (by decide)

lemma isDigits_padded (width n : Nat) : (Text.padded width n).IsDigits := by
  rw [Text.padded, Text.ofChars_append]
  exact (Text.isDigits_zeros _).append (Text.isDigits_ofNat n)

lemma padded_ne_nil (width n : Nat) : Text.padded width n ≠ [] := by
  simp [Text.padded, Text.ofChars]

open Numeral (signText fractionText exponentText)

/-- The sign and the digits of an exponent spell it. -/
lemma exponentValue_padded (width : Nat) (e : Int) :
    exponentValue (decide (e < 0)) (Text.padded width e.natAbs) = e := by
  rw [exponentValue, digitsValue_padded]
  by_cases he : e < 0
  · simp only [he, decide_true, if_true]
    omega
  · simp only [he, decide_false, Bool.false_eq_true, if_false]
    omega

/-! ### Integers -/

def Numeral.ofInt (k : Int) : Numeral := ⟨decide (k < 0), Text.ofNat k.natAbs, none, none⟩

lemma Numeral.spelled_ofInt (width : Nat) (k : Int) :
    (Numeral.ofInt k).spelled width = Text.ofInt k := by
  cases k with
  | ofNat k => simp [ofInt, spelled, signText, fractionText, exponentText, Text.ofInt]
  | negSucc k => simp [ofInt, spelled, signText, fractionText, exponentText, Text.ofInt]

/-- The numeral of an integer has it as its value. -/
lemma Numeral.value_ofInt (k : Int) : (Numeral.ofInt k).value = .int k := by
  simp only [Numeral.value, Numeral.isWhole, ofInt, Option.isNone_none, Bool.and_self, if_true,
    digitsValue_ofNat]
  by_cases hk : k < 0
  · simp only [hk, decide_true, if_true, Json.int.injEq]
    omega
  · simp only [hk, decide_false, Bool.false_eq_true, if_false, Json.int.injEq]
    omega

/-- The numeral of an integer is proper. -/
lemma Numeral.isProper_ofInt (k : Int) : (Numeral.ofInt k).IsProper where
  whole_ne_nil := Text.ofNat_ne_nil _
  whole_isDigits := Text.isDigits_ofNat _
  whole_head := by
    rcases Nat.eq_zero_or_pos k.natAbs with hk | hk
    · exact .inl (by simp [ofInt, hk, Text.ofNat, Text.ofChars])
    · exact .inr (Double.Layout.head?_ofChars_ne (Text.head?_toDigits_ne (by omega)))
  fraction_ne_nil := by rintro f ⟨⟩
  fraction_isDigits := by rintro f ⟨⟩

lemma Numeral.length_ofInt_le (k : Int) :
    (Numeral.ofInt k).whole.length ≤ maxDigits ↔ k.natAbs < Value.writingLimit := by
  unfold Value.writingLimit
  exact Text.length_ofNat_le_iff (by decide)

/-- The first code point of a proper numeral without its sign is a digit. -/
lemma exists_whole_eq {n : Numeral} (hn : n.IsProper) :
    ∃ c cs, n.whole = c :: cs ∧ c.isDigit = true := by
  obtain ⟨c, cs, hw⟩ := List.exists_cons_of_ne_nil hn.whole_ne_nil
  exact ⟨c, cs, hw, hn.whole_isDigits c (hw ▸ List.mem_cons_self)⟩

/-! ### Numerals as numbers that are spelled -/

/-- The exponent of a numeral, with at least `width` digits. -/
def Exponent.ofInt (width : Nat) (e : Int) : Exponent where
  upper := false
  sign := some (decide (e < 0))
  digits := Text.padded width e.natAbs
  digits_ne_nil := padded_ne_nil width e.natAbs
  digits_isDigits := isDigits_padded width e.natAbs

lemma Exponent.value_ofInt (width : Nat) (e : Int) : (ofInt width e).value = e :=
  exponentValue_padded width e

lemma Exponent.map_value_ofInt (width : Nat) (e : Option Int) :
    (e.map (ofInt width)).map value = e := by
  cases e with
  | none => rfl
  | some e => exact congrArg some (value_ofInt width e)

def Literal.ofNumeral (width : Nat) (n : Numeral) (hn : n.IsProper) : Literal where
  negative := n.negative
  whole := n.whole
  fraction := n.fraction
  exponent := n.exponent.map (Exponent.ofInt width)
  isProper := by rwa [Exponent.map_value_ofInt]

lemma Literal.numeral_ofNumeral (width : Nat) (n : Numeral) (hn : n.IsProper) :
    (ofNumeral width n hn).numeral = n := by
  rw [numeral, ofNumeral, Exponent.map_value_ofInt]

/-- The literal of a numeral is spelled as the numeral is. -/
lemma Literal.text_ofNumeral (width : Nat) (n : Numeral) (hn : n.IsProper) :
    (ofNumeral width n hn).text = n.spelled width := by
  have hexponent : Exponent.optionText (n.exponent.map (Exponent.ofInt width))
      = exponentText width n.exponent := by
    cases n.exponent with
    | none => rfl
    | some e =>
      by_cases he : e < 0 <;>
        simp [Exponent.optionText, Exponent.text, Exponent.ofInt, Exponent.signText, exponentText,
          he]
  simp only [text, body, ofNumeral, hexponent, Numeral.spelled, List.append_assoc]

variable {rest : Text}

/-- The letter of an exponent calls for one. -/
lemma Exponent.isOneOf_letter (x : Exponent) :
    (if x.upper then CodePoint.char 'E' else .char 'e').isOneOf "eE" = true := by
  cases x.upper <;> decide

/-- The sign of an exponent is read, or there is none. -/
lemma Exponent.exponentSign_append (x : Exponent) (rest : Text) :
    exponentSign (Exponent.signText x.sign ++ (x.digits ++ rest))
      = (x.sign.getD false, x.digits ++ rest) := by
  cases hsign : x.sign with
  | some negative => cases negative <;> rfl
  | none =>
    obtain ⟨c, cs, hdigits⟩ := List.exists_cons_of_ne_nil x.digits_ne_nil
    have hc : c.isDigit = true := x.digits_isDigits c (hdigits ▸ List.mem_cons_self)
    have hminus := isDigit_ne hc (show Char.isDigit '-' = false from rfl)
    have hplus := isDigit_ne hc (show Char.isDigit '+' = false from rfl)
    rw [hdigits]
    unfold exponentSign
    split <;> simp_all [Exponent.signText]

namespace Literal

variable (l : Literal)

lemma whole_isDigits : l.whole.IsDigits := l.isProper.whole_isDigits

lemma whole_ne_nil : l.whole ≠ [] := l.isProper.whole_ne_nil

/-- A number without its sign starts with a digit. -/
lemma exists_body_eq : ∃ c cs, c.isDigit = true ∧ l.body = c :: cs := by
  obtain ⟨c, cs, hw, hc⟩ : ∃ c cs, l.whole = c :: cs ∧ c.isDigit = true :=
    Json.exists_whole_eq l.isProper
  exact ⟨c, _, hc, by rw [body, hw]; rfl⟩

/-- A number starts with a digit or with its sign. -/
lemma exists_text_eq :
    ∃ c cs, l.text = c :: cs ∧ ∀ d : Char, d.isDigit = false → d ≠ '-' → c ≠ .char d := by
  obtain ⟨c, cs, hc, hbody⟩ := l.exists_body_eq
  rw [text, hbody]
  cases l.negative with
  | true => exact ⟨.char '-', c :: cs, rfl, fun d _ hd h => hd (CodePoint.char.inj h).symm⟩
  | false => exact ⟨c, cs, rfl, fun d hd _ => isDigit_ne hc hd⟩

variable {l}

/-- The text of an exponent does not go on with digits or a fraction. -/
lemma head?_optionText {x : Option Exponent} (hrest : EndsNumeral rest) {c : CodePoint}
    (hc : (Exponent.optionText x ++ rest).head? = some c) : c.isDigit = false ∧ c ≠ .char '.' := by
  cases x with
  | none => exact ⟨hrest.head_isDigit c hc, fun h => hrest.head_ne_point (h ▸ hc)⟩
  | some x =>
    obtain rfl : (if x.upper then CodePoint.char 'E' else .char 'e') = c := Option.some.inj hc
    cases x.upper <;> decide

/-- What follows the whole part of a number does not go on with digits. -/
lemma head?_fractionText (l : Literal) (hrest : EndsNumeral rest) {c : CodePoint}
    (hc : (fractionText l.fraction ++ (Exponent.optionText l.exponent ++ rest)).head? = some c) :
    c.isDigit = false := by
  cases hf : l.fraction with
  | none =>
    rw [hf] at hc
    exact (head?_optionText hrest hc).1
  | some f =>
    rw [hf] at hc
    obtain rfl : .char '.' = c := by simpa [fractionText] using hc
    decide

end Literal

/-! ### The lenient reader -/

/-- An exponent is read in front of what goes on with no number. -/
lemma exponent_optionText (x : Option Exponent) (hrest : EndsNumeral rest) :
    exponent (Exponent.optionText x ++ rest) = (x.map Exponent.value, rest) := by
  cases x with
  | none =>
    cases rest with
    | nil => rfl
    | cons c rest => simp [Exponent.optionText, exponent, hrest.head_isOneOf c rfl]
  | some x =>
    have hsplit := takeWhile_isDigit x.digits_isDigits hrest.head_isDigit
    have hsign := x.exponentSign_append rest
    obtain ⟨d, ds, hdigits⟩ := List.exists_cons_of_ne_nil x.digits_ne_nil
    simp only [Exponent.optionText, Exponent.text, List.cons_append, List.append_assoc, exponent,
      hsign, x.isOneOf_letter, if_true, hsplit]
    simp [hdigits, Exponent.value]

/-- A fraction is read in front of an exponent. -/
lemma fraction_fractionText (l : Literal) (hrest : EndsNumeral rest) :
    fraction (fractionText l.fraction ++ (Exponent.optionText l.exponent ++ rest))
      = (l.fraction, Exponent.optionText l.exponent ++ rest) := by
  have hhead (c) (hc : (Exponent.optionText l.exponent ++ rest).head? = some c) :=
    Literal.head?_optionText hrest hc
  generalize Exponent.optionText l.exponent ++ rest = after at *
  match hf : l.fraction with
  | none =>
    match after with
    | [] => rfl
    | c :: after =>
      have hpoint := (hhead c rfl).2
      simp only [fractionText, List.nil_append]
      unfold fraction
      split
      · simp_all
      · rfl
  | some f =>
    have hsplit := takeWhile_isDigit (l.isProper.fraction_isDigits f hf) fun c hc => (hhead c hc).1
    simp only [fractionText, List.cons_append, fraction, hsplit.1, hsplit.2]
    cases f with
    | nil => exact absurd rfl (l.isProper.fraction_ne_nil _ hf)
    | cons d ds => rfl

/-- A whole part is read in front of what is no digit. -/
lemma whole?_append (l : Literal) {after : Text}
    (hafter : ∀ c, after.head? = some c → c.isDigit = false) :
    whole? (l.whole ++ after) = some (l.whole, after) := by
  have hdigits := l.whole_isDigits
  rcases l.isProper.whole_head with hzero | hhead
  · rw [show l.whole = [.char '0'] from hzero]
    rfl
  · obtain ⟨c, cs, hw, hc⟩ : ∃ c cs, l.whole = c :: cs ∧ c.isDigit = true :=
      exists_whole_eq l.isProper
    rw [hw] at hdigits
    rw [show (Numeral.mk l.negative l.whole l.fraction (l.exponent.map Exponent.value)).whole
      = c :: cs from hw] at hhead
    have hsplit := takeWhile_isDigit (fun d hd => hdigits d (List.mem_cons_of_mem c hd)) hafter
    rw [hw, List.cons_append]
    unfold whole?
    split
    · simp_all
    · simp_all
    · simp_all

/-- The lenient grammar reads a number in front of what does not go on with it. -/
theorem numeral?_text (l : Literal) (hrest : EndsNumeral rest) :
    numeral? (l.text ++ rest) = some (l.numeral, rest) := by
  have hwhole := whole?_append l fun c hc => l.head?_fractionText hrest hc
  have hfraction := fraction_fractionText l hrest
  have hexponent := exponent_optionText l.exponent hrest
  obtain ⟨c, cs, hc, hbody⟩ := l.exists_body_eq
  have hread (negative : Bool) : (whole? (l.body ++ rest)).map (fun read =>
      ((⟨negative, read.1, (fraction read.2).1, (exponent (fraction read.2).2).1⟩ : Numeral),
        (exponent (fraction read.2).2).2))
      = some (⟨negative, l.whole, l.fraction, l.exponent.map Exponent.value⟩, rest) := by
    simp only [Literal.body, List.append_assoc, hwhole, Option.map_some, hfraction, hexponent]
  unfold numeral? Literal.text Literal.numeral
  cases l.negative with
  | true => exact hread true
  | false =>
    have hne := isDigit_ne hc (show Char.isDigit '-' = false by decide)
    rw [← hread false, hbody]
    simp only [signText, Bool.false_eq_true, if_false, List.nil_append, List.cons_append]
    split
    · simp_all
    · rfl

/-- A number is too long to be read. -/
def Stop.IsTooLong : Stop → Prop
  | .tooManyDigits _ => True
  | .malformed _ => False

/-- The lenient reader reads a number, unless it is an integer of too many digits. -/
theorem wordOrNumber_text (l : Literal) (hrest : EndsNumeral rest) :
    GivesIf Stop.IsTooLong l.IsShort (wordOrNumber (l.text ++ rest)) (l.numeral.value, rest) := by
  obtain ⟨c, cs, hc, hbody⟩ := l.exists_body_eq
  have hwords : words.find? (fun w => (l.text ++ rest).startsWith w.1) = none := by
    have hne (d : Char) (hd : d.isDigit = false) := isDigit_ne hc hd
    rw [Literal.text, hbody, List.find?_eq_none]
    cases l.negative <;>
      simp [words, Text.startsWith, signText, Text.ofString, Ne.symm (hne 'n' rfl),
        Ne.symm (hne 't' rfl), Ne.symm (hne 'f' rfl), Ne.symm (hne 'N' rfl),
        Ne.symm (hne 'I' rfl), Ne.symm (hne '-' rfl)]
  have hlong : (l.numeral.isWhole && decide (maxDigits < l.whole.length)) = true ↔ ¬ l.IsShort := by
    rw [Bool.and_eq_true, decide_eq_true_eq, Literal.IsShort, Classical.not_imp, Nat.not_le]
  rw [wordOrNumber, hwords]
  simp only [number, numeral?_text l hrest]
  constructor
  · intro hshort
    exact if_neg (mt hlong.mp (not_not_intro hshort))
  · intro hshort
    exact ⟨_, if_pos (hlong.mpr hshort), trivial⟩

/-! ### The strict reader -/

namespace Strict

/-- Digits are read in front of what is no digit. -/
lemma digits_append {t : Text} (ht : t.IsDigits) (hne : t ≠ [])
    (hrest : ∀ c, rest.head? = some c → c.isDigit = false) :
    digits (t ++ rest) = .ok (t, rest) := by
  have hsplit := takeWhile_isDigit ht hrest
  cases t with
  | nil => exact absurd rfl hne
  | cons c t =>
    have hc : c.isDigit = true := ht c List.mem_cons_self
    rw [List.cons_append, List.dropWhile_cons_of_pos hc] at hsplit
    rw [List.cons_append, digits, if_pos hc, hsplit.1, hsplit.2]

/-- An exponent is read in front of what goes on with no number. -/
lemma exponent_optionText (x : Option Exponent) (hrest : EndsNumeral rest) :
    exponent (Exponent.optionText x ++ rest) = .ok (x.map Exponent.value, rest) := by
  cases x with
  | none =>
    cases rest with
    | nil => rfl
    | cons c rest => simp [Exponent.optionText, exponent, hrest.head_isOneOf c rfl]
  | some x =>
    have hdigits := digits_append x.digits_isDigits x.digits_ne_nil hrest.head_isDigit
    have hsign := x.exponentSign_append rest
    simp only [Exponent.optionText, Exponent.text, List.cons_append, List.append_assoc, exponent,
      hsign, x.isOneOf_letter, if_true, hdigits, ok_bind]
    rfl

/-- A fraction is read in front of an exponent. -/
lemma fraction_fractionText (l : Literal) (hrest : EndsNumeral rest) :
    fraction (fractionText l.fraction ++ (Exponent.optionText l.exponent ++ rest))
      = .ok (l.fraction, Exponent.optionText l.exponent ++ rest) := by
  have hhead (c) (hc : (Exponent.optionText l.exponent ++ rest).head? = some c) :=
    Literal.head?_optionText hrest hc
  generalize Exponent.optionText l.exponent ++ rest = after at *
  match hf : l.fraction with
  | none =>
    match after with
    | [] => rfl
    | c :: after =>
      have hpoint := (hhead c rfl).2
      simp only [fractionText, List.nil_append]
      unfold fraction
      split
      · simp_all
      · rfl
  | some f =>
    have hdigits :=
      digits_append (l.isProper.fraction_isDigits f hf) (l.isProper.fraction_ne_nil f hf)
        fun c hc => (hhead c hc).1
    simp only [fractionText, List.cons_append, fraction, hdigits]
    rfl

/-- The strict reader reads a whole part, unless it has too many digits. -/
lemma whole_append (l : Literal) {after : Text}
    (hafter : ∀ c, after.head? = some c → c.isDigit = false) :
    (l.whole.length ≤ maxDigits → whole (l.whole ++ after) = .ok (l.whole, after)) ∧
      (maxDigits < l.whole.length → ∃ fault, whole (l.whole ++ after) = .error fault) := by
  have hdigits := digits_append l.whole_isDigits l.whole_ne_nil hafter
  rcases l.isProper.whole_head with hzero | hhead
  · -- A lone zero is a whole part on its own.
    rw [show l.whole = [.char '0'] from hzero]
    constructor
    · intro _
      cases after with
      | nil => rfl
      | cons c after => simp [whole, hafter c rfl]
    · intro hlong
      simp only [List.length_singleton, maxDigits] at hlong
      omega
  · -- Other digits are counted before what follows is looked at.
    obtain ⟨c, cs, hw, hc⟩ : ∃ c cs, l.whole = c :: cs ∧ c.isDigit = true :=
      exists_whole_eq l.isProper
    rw [show (Numeral.mk l.negative l.whole l.fraction (l.exponent.map Exponent.value)).whole
      = c :: cs from hw] at hhead
    rw [hw] at hdigits ⊢
    rw [List.cons_append] at hdigits ⊢
    unfold whole
    split
    · simp_all
    · simp_all
    · simp only [hdigits, ok_bind]
      constructor
      · intro hshort
        rw [if_neg (by omega)]
        rfl
      · intro hlong
        rw [if_pos hlong]
        exact ⟨_, rfl⟩

/-- What starts as a numeral is read as a number. -/
lemma wordOrNumber_eq_number (l : Literal) (rest : Text) :
    wordOrNumber (l.text ++ rest) = number l.negative (l.body ++ rest) := by
  obtain ⟨c, cs, hc, hbody⟩ := l.exists_body_eq
  have hne (d : Char) (hd : d.isDigit = false) := isDigit_ne hc hd
  have hn' := hne 'n' rfl
  have ht := hne 't' rfl
  have hf := hne 'f' rfl
  have hN := hne 'N' rfl
  have hI := hne 'I' rfl
  have hminus := hne '-' rfl
  rw [Literal.text, hbody]
  cases l.negative with
  | true =>
    simp only [signText, if_true, List.cons_append, List.nil_append]
    unfold wordOrNumber
    split <;> simp_all
  | false =>
    simp only [signText, Bool.false_eq_true, if_false, List.nil_append, List.cons_append]
    unfold wordOrNumber
    split <;> simp_all

/-- The strict reader reads a number exactly if its whole part does not have too many digits. -/
theorem wordOrNumber_text (l : Literal) (hrest : EndsNumeral rest) :
    GivesIf (fun _ => True) l.HasShortWhole (wordOrNumber (l.text ++ rest))
      (l.numeral.value, rest) := by
  have hwhole := whole_append l fun c hc => l.head?_fractionText hrest hc
  rw [wordOrNumber_eq_number, Literal.HasShortWhole, number, Literal.body, List.append_assoc,
    List.append_assoc]
  constructor
  · intro hshort
    simp only [hwhole.1 hshort, fraction_fractionText l hrest, exponent_optionText l.exponent hrest,
      ok_bind]
    rfl
  · intro hlong
    obtain ⟨fault, hfault⟩ := hwhole.2 (Nat.lt_of_not_le hlong)
    exact ⟨fault, by rw [hfault]; rfl, trivial⟩

end Strict

end Schematic.Json
