import Mathlib.Tactic.IntervalCases
import Mathlib.Tactic.Lemma
import Mathlib.Tactic.Ring
import Schematic.Json.Numeral
import Schematic.Text.Digit

/-!
# Digits

What numerals are made of, and that the digits which are written for a number spell that number.
-/

namespace Schematic

namespace CodePoint

/-- The number of a code point is one of Unicode. -/
lemma value_lt (c : CodePoint) : c.value < 0x110000 := by
  cases c with
  | char c => exact c.valid.elim (fun h => Nat.lt_trans h (by decide)) And.right
  | lone half =>
    have := half.isLt
    simp only [value]
    omega

lemma isDigit_char (c : Char) : (char c).isDigit = c.isDigit := by
  simp [isDigit, within, Char.isDigit, Char.le_def]

lemma hexDigit?_digitChar {d : Nat} (h : d < 16) : (char d.digitChar).hexDigit? = some d := by
  interval_cases d <;> rfl

/-- A code point is a digit, and which one it is. -/
lemma isDigit_iff {c : CodePoint} :
    c.isDigit = true ↔ ∃ d < 10, c = .char (Nat.digitChar d) := by
  constructor
  · intro h
    match c, h with
    | .char c, h =>
      rw [isDigit_char, Char.isDigit, Bool.and_eq_true, decide_eq_true_eq, decide_eq_true_eq] at h
      have hlow : 48 ≤ c.toNat := h.1
      have hhigh : c.toNat ≤ 57 := h.2
      refine ⟨c.toNat - 48, by omega, ?_⟩
      rw [← Char.ofNat_toNat c]
      interval_cases c.toNat <;> rfl
  · rintro ⟨d, hd, rfl⟩
    interval_cases d <;> rfl

lemma hexDigit?_of_isDigit {c : CodePoint} (h : c.isDigit = true) :
    ∃ d < 10, c.hexDigit? = some d := by
  obtain ⟨d, hd, rfl⟩ := isDigit_iff.mp h
  exact ⟨d, hd, hexDigit?_digitChar (by omega)⟩

/-- A hexadecimal digit is less than sixteen. -/
lemma lt_of_hexDigit? {c : CodePoint} {d : Nat} (h : c.hexDigit? = some d) : d < 16 := by
  cases c with
  | lone _ => cases h
  | char c =>
    have hle {d : Char} (hcd : c ≤ d) : c.toNat ≤ d.toNat := hcd
    -- A hexadecimal digit is decimal, or a small or a capital letter.
    unfold hexDigit? at h
    simp only [Bool.and_eq_true, decide_eq_true_eq] at h
    split at h
    case isTrue hc =>
      have hnine := hle hc.2
      simp only [Option.some.injEq, Char.reduceToNat] at h hnine
      omega
    case isFalse =>
      split at h
      case isTrue hc =>
        have hf := hle hc.2
        simp only [Option.some.injEq, Char.reduceToNat] at h hf
        omega
      case isFalse =>
        split at h
        case isTrue hc =>
          have hf := hle hc.2
          simp only [Option.some.injEq, Char.reduceToNat] at h hf
          omega
        case isFalse => cases h

lemma digit?_of_isDigit {c : CodePoint} (h : c.isDigit = true) : c.digit? = c.hexDigit? := by
  obtain ⟨d, hd, rfl⟩ := isDigit_iff.mp h
  interval_cases d <;> rfl

end CodePoint

namespace Text

@[simp]
lemma ofChars_append (cs ds : List Char) : ofChars (cs ++ ds) = ofChars cs ++ ofChars ds :=
  List.map_append

@[simp]
lemma length_ofChars (cs : List Char) : List.length (ofChars cs) = cs.length :=
  List.length_map _

def IsDigits (t : Text) : Prop := ∀ c ∈ t, c.isDigit = true

lemma IsDigits.append {t u : Text} (ht : t.IsDigits) (hu : u.IsDigits) : (t ++ u).IsDigits := by
  intro c hc
  rcases List.mem_append.mp hc with hc | hc
  · exact ht c hc
  · exact hu c hc

lemma isDigits_ofChars {cs : List Char} : (ofChars cs).IsDigits ↔ ∀ c ∈ cs, c.isDigit = true := by
  simp [IsDigits, ofChars, CodePoint.isDigit_char]

lemma isDigits_ofNat (n : Nat) : (ofNat n).IsDigits :=
  isDigits_ofChars.mpr fun _ hc => Nat.isDigit_of_mem_toDigits (by decide) (by decide) hc

lemma isDigits_zeros (n : Nat) : (ofChars (List.replicate n '0')).IsDigits :=
  isDigits_ofChars.mpr fun _ hc => (List.eq_of_mem_replicate hc) ▸ rfl

lemma ofNat_ne_nil (n : Nat) : ofNat n ≠ [] := by
  simp [ofNat, ofChars]

lemma length_ofNat_le_iff {n k : Nat} (hk : 0 < k) : (ofNat n).length ≤ k ↔ n < 10 ^ k := by
  rw [ofNat, length_ofChars]
  exact Nat.length_toDigits_le_iff (by decide) hk

/-- The last hexadecimal digit of a number, and the digits before it. -/
lemma fill_toDigits_succ {count : Nat} (hcount : 0 < count) (n : Nat) :
    List.replicate (count + 1 - (Nat.toDigits 16 n).length) '0' ++ Nat.toDigits 16 n
      = List.replicate (count - (Nat.toDigits 16 (n / 16)).length) '0' ++ Nat.toDigits 16 (n / 16)
          ++ [(n % 16).digitChar] := by
  have hsplit : Nat.toDigits 16 n =
      if n < 16 then [n.digitChar] else Nat.toDigits 16 (n / 16) ++ [(n % 16).digitChar] :=
    Nat.toDigits_eq_if (by decide)
  rw [hsplit]
  split
  case isTrue h =>
    rw [Nat.div_eq_of_lt h, Nat.mod_eq_of_lt h]
    obtain ⟨count, rfl⟩ := Nat.exists_eq_succ_of_ne_zero hcount.ne'
    simp [List.replicate_succ']
  case isFalse h => simp

lemma hex_succ {count : Nat} (hcount : 0 < count) (n : Nat) :
    hex (count + 1) n = hex count (n / 16) ++ [.char (n % 16).digitChar] := by
  rw [hex, fill_toDigits_succ hcount, ofChars_append]
  rfl

/-- The letters of the lower case are those of the upper case. -/
lemma hexUpper_eq (count n : Nat) :
    hexUpper count n
      = ofChars ((List.replicate (count - (Nat.toDigits 16 n).length) '0' ++ Nat.toDigits 16 n).map
        Char.toUpper) := by
  rw [hexUpper, List.map_append, List.map_replicate, List.length_map]
  rfl

lemma hexUpper_succ {count : Nat} (hcount : 0 < count) (n : Nat) :
    hexUpper (count + 1) n = hexUpper count (n / 16) ++ [.char (n % 16).digitChar.toUpper] := by
  rw [hexUpper_eq, hexUpper_eq, fill_toDigits_succ hcount, List.map_append, ofChars_append]
  rfl

lemma hex_one {n : Nat} (h : n < 16) : hex 1 n = [.char n.digitChar] := by
  simp [hex, Nat.toDigits_of_lt_base h, ofChars]

/-- The four hexadecimal digits of a number of 16 bits. -/
lemma hex_four {n : Nat} (h : n < 0x10000) :
    hex 4 n = [.char (n / 16 / 16 / 16).digitChar, .char (n / 16 / 16 % 16).digitChar,
      .char (n / 16 % 16).digitChar, .char (n % 16).digitChar] := by
  rw [hex_succ (by decide), hex_succ (by decide), hex_succ (by decide), hex_one (by omega)]
  rfl

/-- The numeral of a positive number does not start with a zero. -/
lemma head?_toDigits_ne {n : Nat} (hn : n ≠ 0) : (Nat.toDigits 10 n).head? ≠ some '0' := by
  induction n using Nat.strong_induction_on with
  | _ n ih =>
    rw [Nat.toDigits_eq_if (by decide)]
    split
    · interval_cases n <;> simp_all
    · have hdiv := ih (n / 10) (by omega) (by omega)
      obtain ⟨c, cs, hcs⟩ :=
        List.exists_cons_of_ne_nil (Nat.toDigits_ne_nil (n := n / 10) (b := 10))
      rw [hcs] at hdiv ⊢
      exact hdiv

end Text

/-! ### The number that digits spell -/

namespace Json

/-- The number of a text is that of its parts, one of them shifted. -/
lemma digitsValue_append (t u : Text) :
    digitsValue (t ++ u) = digitsValue t * 10 ^ u.length + digitsValue u := by
  have hfold (u : Text) (n : Nat) : u.foldl (fun n d => n * 10 + d.hexDigit?.getD 0) n
      = n * 10 ^ u.length + digitsValue u := by
    induction u generalizing n with
    | nil => simp [digitsValue]
    | cons c u ih =>
      rw [digitsValue, List.foldl_cons, List.foldl_cons, ih, ih (0 * 10 + _), List.length_cons]
      ring
  rw [digitsValue, List.foldl_append, hfold]
  rfl

/-- The digits of a number have it as their value. -/
lemma digitsValue_ofNat (n : Nat) : digitsValue (Text.ofNat n) = n := by
  induction n using Nat.strong_induction_on with
  | _ n ih =>
    rw [Text.ofNat, Nat.toDigits_eq_if (by decide)]
    split
    · rename_i hn
      simp [Text.ofChars, digitsValue, CodePoint.hexDigit?_digitChar (show n < 16 by omega)]
    · have hdiv := ih (n / 10) (by omega)
      have hdigit := CodePoint.hexDigit?_digitChar (show n % 10 < 16 by omega)
      rw [Text.ofChars_append, digitsValue_append]
      rw [Text.ofNat] at hdiv
      rw [hdiv]
      simp [Text.ofChars, digitsValue, hdigit]
      omega

/-- Zeros have no value. -/
lemma digitsValue_zeros (n : Nat) : digitsValue (Text.ofChars (List.replicate n '0')) = 0 := by
  induction n with
  | zero => rfl
  | succ n ih =>
    rw [List.replicate_succ', Text.ofChars_append, digitsValue_append, ih]
    rfl

lemma digitsValue_padded (width n : Nat) : digitsValue (Text.padded width n) = n := by
  have hdigits := digitsValue_ofNat n
  rw [Text.ofNat] at hdigits
  simp only [Text.padded, Text.ofChars_append, digitsValue_append, digitsValue_zeros, hdigits]
  omega

end Json

end Schematic
