import Schematic.Proofs.Json.Number
import Schematic.Text.LowerCase
import Schematic.Text.Numeral

/-!
# Characters of numerals

Texts of the characters that numbers are written with. Nothing in them is taken away or changed
where numbers are read, and decimal digits spell their number.
-/

namespace Schematic

def CodePoint.IsNumeral (c : CodePoint) : Prop :=
  c.isDigit = true ∨ c = .char '-' ∨ c = .char '+' ∨ c = .char '.' ∨ c = .char 'e' ∨ c = .char 'E'

namespace CodePoint

variable {c : CodePoint}

/-- A code point of a numeral is a digit or a mark of a number. -/
lemma IsNumeral.ne (h : c.IsNumeral) {d : Char} (hd : (char d).isDigit = false)
    (hne : d ∉ ['-', '+', '.', 'e', 'E']) : c ≠ .char d := by
  rintro rfl
  rcases h with h | h | h | h | h | h
  · rw [hd] at h
    exact absurd h (by decide)
  all_goals
    rw [char.injEq] at h
    rw [h] at hne
    exact hne (by decide)

/-- The code points of written numbers, one by one. -/
lemma IsNumeral.mem (h : c.IsNumeral) : c ∈ Text.ofString "0123456789-+.eE" := by
  rcases h with h | rfl | rfl | rfl | rfl | rfl
  · obtain ⟨d, hd, rfl⟩ := isDigit_iff.mp h
    interval_cases d <;> decide
  all_goals decide

/-- Only one mark of a number has another lower case. -/
lemma IsNumeral.lower_eq (h : c.IsNumeral) (hupper : c ≠ .char 'E') : c.lower = [c] := by
  have hall : ∀ c ∈ Text.ofString "0123456789-+.eE", c ≠ .char 'E' → c.lower = [c] := by decide
  exact hall c h.mem hupper

lemma IsNumeral.within (h : c.IsNumeral) : c.within ' ' '~' = true := by
  have hall : ∀ c ∈ Text.ofString "0123456789-+.eE", c.within ' ' '~' = true := by decide
  exact hall c h.mem

lemma IsNumeral.isNumeralBlank_eq (h : c.IsNumeral) : Text.isNumeralBlank c = false := by
  have hall : ∀ c ∈ Text.ofString "0123456789-+.eE", Text.isNumeralBlank c = false := by decide
  exact hall c h.mem

lemma isAnyDigit_of_isDigit (h : c.isDigit = true) : Text.isAnyDigit c = true := by
  obtain ⟨d, hd, rfl⟩ := isDigit_iff.mp h
  interval_cases d <;> decide

end CodePoint

namespace Text

/-- A text of the code points of written numbers. -/
def IsNumeral (t : Text) : Prop := ∀ c ∈ t, c.IsNumeral

variable {t u : Text}

lemma IsDigits.isNumeral (h : t.IsDigits) : t.IsNumeral := fun c hc => .inl (h c hc)

lemma IsNumeral.append (ht : t.IsNumeral) (hu : u.IsNumeral) : (t ++ u).IsNumeral :=
  List.forall_mem_append.mpr ⟨ht, hu⟩

lemma IsNumeral.without_eq (h : t.IsNumeral) : t.without (.char '_') = t := by
  rw [without, List.filter_eq_self]
  intro c hc
  simpa using (h c hc).ne rfl (by decide)

/-- A numeral without a capital exponent is its own lower case. -/
lemma IsNumeral.lower_eq (h : t.IsNumeral) (hupper : .char 'E' ∉ t) : t.lower = t := by
  induction t with
  | nil => rfl
  | cons c t ih =>
    obtain ⟨hc, ht⟩ := List.forall_mem_cons.mp h
    rw [List.mem_cons, not_or] at hupper
    rw [lower, List.flatMap_cons, hc.lower_eq (Ne.symm hupper.1)]
    exact congrArg (List.cons c) (ih ht hupper.2)

/-- A numeral has no blanks to trim. -/
lemma IsNumeral.trimNumeral_eq (h : t.IsNumeral) : trimNumeral t = t := by
  have hdrop {u : Text} (hu : u.IsNumeral) : u.dropWhile isNumeralBlank = u := by
    cases u with
    | nil => rfl
    | cons c u =>
      rw [List.dropWhile_cons_of_neg]
      rw [(hu c List.mem_cons_self).isNumeralBlank_eq]
      decide
  rw [trimNumeral, hdrop h, hdrop fun c hc => h c (List.mem_reverse.mp hc), List.reverse_reverse]

lemma IsNumeral.not_mem_colon (h : t.IsNumeral) : .char ':' ∉ t :=
  fun hmem => (h _ hmem).ne rfl (by decide) rfl

/-- Decimal digits spell their number. -/
lemma natural?_eq (h : t.IsDigits) : natural? 10 t = some (Json.digitsValue t) := by
  have hfold (n : Nat) : t.foldlM (fun n c => do
      let d ← digitValue? c
      if d < 10 then some (n * 10 + d) else none) n
        = some (t.foldl (fun n d => n * 10 + d.hexDigit?.getD 0) n) := by
    induction t generalizing n with
    | nil => rfl
    | cons c t ih =>
      obtain ⟨hc, ht⟩ := List.forall_mem_cons.mp h
      obtain ⟨d, hd, hdigit⟩ := CodePoint.hexDigit?_of_isDigit hc
      have hvalue : digitValue? c = some d := by
        rw [digitValue?, CodePoint.digit?_of_isDigit hc, hdigit]
        rfl
      rw [List.foldlM_cons, List.foldl_cons, hvalue, hdigit]
      simp only [Option.bind_eq_bind, Option.bind_some, if_pos hd, Option.getD_some]
      exact ih ht _
  exact hfold 0

end Text

end Schematic
