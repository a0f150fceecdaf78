import Mathlib.Tactic.IntervalCases
import Schematic.Proofs.Text.Digit
import Schematic.Proofs.Yaml.Source

/-!
# Written scalars are pages

However a text is written as a scalar, only printable ASCII characters and line feeds come out of
it; and a text that is not folded and holds no line feed stays on its line.
-/

namespace Schematic.Yaml

variable {split : Bool} {indent : Nat} {t : Text}

lemma isLine_hexUpper {count : Nat} (hcount : 0 < count) (n : Nat) (h : n < 16 ^ count) :
    IsLine (Text.hexUpper count n) := by
  have hdigit (d : Nat) (hd : d < 16) : IsLine [.char d.digitChar.toUpper] := by
    refine isLine_cons.mpr ⟨?_, isLine_nil⟩
    interval_cases d <;> rfl
  induction count, hcount using Nat.le_induction generalizing n with
  | base =>
    have hdigits : Nat.toDigits 16 n = [n.digitChar] := Nat.toDigits_of_lt_base h
    simpa [Text.hexUpper, hdigits, Text.ofChars] using hdigit n h
  | succ count hcount ih =>
    rw [Text.hexUpper_succ hcount]
    exact (ih (n / 16) (Nat.div_lt_of_lt_mul (by rwa [Nat.pow_succ, Nat.mul_comm] at h))).append
      (hdigit _ (Nat.mod_lt n (by decide)))

lemma length_hexUpper {count : Nat} (hcount : 0 < count) (n : Nat) (h : n < 16 ^ count) :
    (Text.hexUpper count n).length = count := by
  induction count, hcount using Nat.le_induction generalizing n with
  | base =>
    have hdigits : Nat.toDigits 16 n = [n.digitChar] := Nat.toDigits_of_lt_base h
    simp [Text.hexUpper, hdigits, Text.ofChars]
  | succ count hcount ih =>
    rw [Text.hexUpper_succ hcount, List.length_append,
      ih (n / 16) (Nat.div_lt_of_lt_mul (by rwa [Nat.pow_succ, Nat.mul_comm] at h))]
    rfl

lemma value_lt (p : CodePoint) : p.value < 16 ^ 8 := Nat.lt_trans p.value_lt (by decide)

lemma isLine_escapeOf (p : CodePoint) : IsLine (escapeOf p) := by
  unfold escapeOf
  split
  case h_1 e letter hfind =>
    have hletters : ∀ e ∈ escapeLetters, IsLine [.char '\\', .char e.2] := by
      simp only [isLine_cons, isLine_nil, and_true]
      decide
    exact hletters _ (List.mem_of_find?_eq_some hfind)
  case h_2 =>
    split_ifs with hbyte hplane
    · exact isLine_cons.mpr ⟨rfl, isLine_cons.mpr ⟨rfl,
        isLine_hexUpper (by decide) _ (Nat.lt_succ_of_le hbyte)⟩⟩
    · exact isLine_cons.mpr ⟨rfl, isLine_cons.mpr ⟨rfl,
        isLine_hexUpper (by decide) _ (Nat.lt_succ_of_le hplane)⟩⟩
    · exact isLine_cons.mpr ⟨rfl, isLine_cons.mpr ⟨rfl,
        isLine_hexUpper (by decide) _ (value_lt p)⟩⟩

lemma isPage_joinedLine : IsPage (joinedLine indent t) := by
  unfold joinedLine
  refine ((isLine_cons.mpr ⟨rfl, isLine_nil⟩).isPage.append (isPage_newLine indent)).append ?_
  split
  · exact (isLine_cons.mpr ⟨rfl, isLine_nil⟩).isPage
  · exact isLine_nil.isPage

lemma isLine_of_isBare {c : CodePoint} (h : isBare c = true) : IsLine [c] := by
  rw [isBare, Bool.and_eq_true] at h
  exact isLine_cons.mpr ⟨h.1, isLine_nil⟩

/-- A text between double quotes is a page. -/
lemma isPage_doubleQuotedBody (t : Text) (isFirst afterEscape : Bool) (column : Nat) :
    IsPage (doubleQuotedBody split indent isFirst afterEscape column t) := by
  induction t generalizing isFirst afterEscape column with
  | nil => exact isLine_nil.isPage
  | cons c t ih =>
    rw [doubleQuotedBody]
    split
    case isTrue hbare =>
      have hc := (isLine_of_isBare hbare).isPage
      split
      · exact isPage_joinedLine.append (hc.append (ih _ _ _))
      · exact hc.append (ih _ _ _)
    case isFalse =>
      have hc := (isLine_escapeOf c).isPage
      dsimp only
      split
      · exact (hc.append isPage_joinedLine).append (ih _ _ _)
      · exact hc.append (ih _ _ _)

/-- Without folding there is a single line between double quotes. -/
lemma isLine_doubleQuotedBody (t : Text) (isFirst afterEscape : Bool) (column : Nat) :
    IsLine (doubleQuotedBody false indent isFirst afterEscape column t) := by
  induction t generalizing isFirst afterEscape column with
  | nil => exact isLine_nil
  | cons c t ih =>
    rw [doubleQuotedBody]
    split
    case isTrue hbare =>
      rw [if_neg (by simp)]
      exact (isLine_of_isBare hbare).append (ih _ _ _)
    case isFalse =>
      dsimp only
      rw [if_neg (by simp)]
      exact (isLine_escapeOf c).append (ih _ _ _)

lemma isPage_foldedLineEnd (before : Option CodePoint) :
    IsPage (foldedLineEnd indent before t) := by
  have hline : IsPage "\n" := isPage_cons.mpr ⟨rfl, isLine_nil.isPage⟩
  unfold foldedLineEnd
  refine IsPage.append (IsPage.append ?_ hline) ?_
  · split
    · exact isLine_nil.isPage
    · exact hline
  · split
    · exact isLine_nil.isPage
    · exact (isLine_spaces indent).isPage

/-- A text that is folded is a page if its characters are. -/
lemma isPage_foldWords {write : CodePoint → Text} (h : ∀ c ∈ t, IsPage (write c))
    (before : Option CodePoint) (column : Nat) :
    IsPage (foldWords write split indent before column t) := by
  induction t generalizing before column with
  | nil => exact isLine_nil.isPage
  | cons c t ih =>
    rw [List.forall_mem_cons] at h
    rw [foldWords]
    split_ifs
    · exact (isPage_foldedLineEnd before).append (ih h.2 _ _)
    · exact (isPage_newLine indent).append (ih h.2 _ _)
    · exact h.1.append (ih h.2 _ _)

/-- Without folding, a text without line feeds stays on its line. -/
lemma isLine_foldWords {write : CodePoint → Text} (h : ∀ c ∈ t, IsLine (write c))
    (hline : .char '\n' ∉ t) (before : Option CodePoint) (column : Nat) :
    IsLine (foldWords write false indent before column t) := by
  induction t generalizing before column with
  | nil => exact isLine_nil
  | cons c t ih =>
    rw [List.forall_mem_cons] at h
    rw [List.mem_cons, not_or] at hline
    rw [foldWords, if_neg (Ne.symm hline.1), if_neg (by simp)]
    exact h.1.append (ih h.2 hline.2 _ _)

lemma isPage_of_allowsPlain (h : allowsPlain t = true) : IsPage t := by
  simp only [allowsPlain, Bool.and_eq_true, List.all_eq_true] at h
  exact fun c hc => (h.1.1.1.2 c hc).1

lemma isPage_of_allowsSingleQuotes (h : allowsSingleQuotes t = true) : IsPage t := by
  rw [allowsSingleQuotes, Bool.and_eq_true, List.all_eq_true] at h
  exact h.1

lemma isLine_singleQuotedPoint {c : CodePoint} (h : c.within ' ' '~' = true) :
    IsLine (singleQuotedPoint c) := by
  unfold singleQuotedPoint
  split
  · exact isLine_cons.mpr ⟨rfl, isLine_cons.mpr ⟨rfl, isLine_nil⟩⟩
  · exact isLine_cons.mpr ⟨h, isLine_nil⟩

lemma isPage_singleQuotedPoint {c : CodePoint} (h : isOrdinary c = true) :
    IsPage (singleQuotedPoint c) := by
  unfold singleQuotedPoint
  split
  · exact (isLine_cons.mpr ⟨rfl, isLine_cons.mpr ⟨rfl, isLine_nil⟩⟩ : IsLine "''").isPage
  · exact isPage_cons.mpr ⟨h, isLine_nil.isPage⟩

/-- A written scalar is a page. -/
theorem isPage_scalar (split : Bool) (indent column : Nat) (t : Text) :
    IsPage (scalar split indent column t) := by
  have hsingle : IsPage "'" := (isLine_cons.mpr ⟨rfl, isLine_nil⟩ : IsLine "'").isPage
  have hdouble : IsPage "\"" := (isLine_cons.mpr ⟨rfl, isLine_nil⟩ : IsLine "\"").isPage
  unfold scalar ScalarStyle.of
  split_ifs with hplain hquotes
  · exact isPage_foldWords (fun c hc =>
      isPage_cons.mpr ⟨isPage_of_allowsPlain hplain c hc, isLine_nil.isPage⟩) _ _
  · exact (hsingle.append (isPage_foldWords (fun c hc =>
      isPage_singleQuotedPoint (isPage_of_allowsSingleQuotes hquotes c hc)) _ _)).append hsingle
  · exact (hdouble.append (isPage_doubleQuotedBody t _ _ _)).append hdouble

lemma within_of_isOrdinary {c : CodePoint} (h : isOrdinary c = true) (hline : c ≠ .char '\n') :
    c.within ' ' '~' = true := by
  rw [isOrdinary, Bool.or_eq_true, beq_iff_eq] at h
  exact h.resolve_right hline

lemma not_mem_of_isSimpleKey (h : isSimpleKey t = true) : .char '\n' ∉ t := by
  intro hmem
  simp only [isSimpleKey, Bool.and_eq_true, Bool.not_eq_true', List.any_eq_false] at h
  exact h.2 _ hmem (by decide)

/-- A simple key stays on its line. -/
theorem isLine_simpleKey (indent : Nat) {t : Text} (h : isSimpleKey t = true) :
    IsLine (simpleKey indent t) := by
  have hline := not_mem_of_isSimpleKey h
  have hwithin (hpage : IsPage t) (c : CodePoint) (hc : c ∈ t) : c.within ' ' '~' = true :=
    within_of_isOrdinary (hpage c hc) fun heq => hline (heq ▸ hc)
  have hsingle : IsLine "'" := isLine_cons.mpr ⟨rfl, isLine_nil⟩
  have hdouble : IsLine "\"" := isLine_cons.mpr ⟨rfl, isLine_nil⟩
  unfold simpleKey scalar ScalarStyle.of
  split_ifs with hplain hquotes
  · exact isLine_foldWords (fun c hc =>
      isLine_cons.mpr ⟨hwithin (isPage_of_allowsPlain hplain) c hc, isLine_nil⟩) hline _ _
  · exact (hsingle.append (isLine_foldWords (fun c hc => isLine_singleQuotedPoint
      (hwithin (isPage_of_allowsSingleQuotes hquotes) c hc)) hline _ _)).append hsingle
  · exact (hdouble.append (isLine_doubleQuotedBody t _ _ _)).append hdouble

/-! ### Scalars on one line -/

lemma doubleQuotedBody_false (t : Text) (isFirst afterEscape : Bool)
    (column indent' column' : Nat) :
    doubleQuotedBody false indent isFirst afterEscape column t
      = doubleQuotedBody false indent' isFirst afterEscape column' t := by
  induction t generalizing isFirst afterEscape column column' with
  | nil => rfl
  | cons c t ih =>
    rw [doubleQuotedBody, doubleQuotedBody]
    split
    · rw [if_neg (by simp), if_neg (by simp), ih]
    · dsimp only
      rw [if_neg (by simp), if_neg (by simp), ih]

lemma foldWords_false {write : CodePoint → Text} (hline : .char '\n' ∉ t)
    (before : Option CodePoint) (column indent' column' : Nat) :
    foldWords write false indent before column t
      = foldWords write false indent' before column' t := by
  induction t generalizing before column column' with
  | nil => rfl
  | cons c t ih =>
    rw [List.mem_cons, not_or] at hline
    rw [foldWords, foldWords, if_neg (Ne.symm hline.1), if_neg (Ne.symm hline.1), if_neg (by simp),
      if_neg (by simp), ih hline.2]

/-- How a simple key is written does not depend on the place. -/
theorem scalar_false_eq (h : isSimpleKey t = true) (indent column indent' column' : Nat) :
    scalar false indent column t = scalar false indent' column' t := by
  have hline := not_mem_of_isSimpleKey h
  unfold scalar
  split
  · exact foldWords_false hline _ _ _ _
  · rw [foldWords_false hline _ _ indent' (column' + 1)]
  · rw [doubleQuotedBody_false t _ _ _ indent' (column' + 1)]

/-- The number of characters that a simple key takes. -/
def keyWidth (t : Text) : Nat := (simpleKey 0 t).length

lemma length_escapeOf_le (p : CodePoint) : (escapeOf p).length ≤ 10 := by
  unfold escapeOf
  split
  case h_1 => exact (by decide : 2 ≤ 10)
  case h_2 =>
    have hlength {count : Nat} (u : Text) (hcount : 0 < count) (h : p.value < 16 ^ count) :
        (u ++ Text.hexUpper count p.value).length = u.length + count := by
      rw [List.length_append, length_hexUpper hcount _ h]
    split_ifs with hbyte hplane
    · exact (hlength "\\x" (by decide) (Nat.lt_succ_of_le hbyte)).trans_le (by decide)
    · exact (hlength "\\u" (by decide) (Nat.lt_succ_of_le hplane)).trans_le (by decide)
    · exact (hlength "\\U" (by decide) (value_lt p)).trans_le (by decide)

/-- A text between double quotes on one line is ten times as long as it was at most. -/
lemma length_doubleQuotedBody_le (indent : Nat) (t : Text) (isFirst afterEscape : Bool)
    (column : Nat) :
    (doubleQuotedBody false indent isFirst afterEscape column t).length ≤ 10 * t.length := by
  induction t generalizing isFirst afterEscape column with
  | nil => exact Nat.le_refl _
  | cons c t ih =>
    rw [doubleQuotedBody, List.length_cons]
    split
    case isTrue =>
      have hle := ih false false (column + 1)
      rw [if_neg (by simp), List.length_cons]
      omega
    case isFalse =>
      have hle := ih false true (column + (escapeOf c).length)
      have hescape := length_escapeOf_le c
      dsimp only
      rw [if_neg (by simp), List.length_append]
      omega

/-- A text that is folded on one line is twice as long as it was at most. -/
lemma length_foldWords_le {write : CodePoint → Text} (hwrite : ∀ c, (write c).length ≤ 2)
    (indent : Nat) (hline : .char '\n' ∉ t) (before : Option CodePoint) (column : Nat) :
    (foldWords write false indent before column t).length ≤ 2 * t.length := by
  induction t generalizing before column with
  | nil => exact Nat.le_refl _
  | cons c t ih =>
    rw [List.mem_cons, not_or] at hline
    have hle := ih hline.2 (some c) (column + (write c).length)
    have hc := hwrite c
    rw [foldWords, if_neg (Ne.symm hline.1), if_neg (by simp), List.length_append, List.length_cons]
    omega

/-- A code point of a simple key takes at most ten characters, and the quotes take two. -/
theorem keyWidth_le (h : isSimpleKey t = true) : keyWidth t ≤ 10 * t.length + 2 := by
  have hline := not_mem_of_isSimpleKey h
  have hitself (c : CodePoint) : List.length [c] ≤ 2 := Nat.le_succ 1
  have hquote (c : CodePoint) : (singleQuotedPoint c).length ≤ 2 := by
    unfold singleQuotedPoint
    split
    · exact Nat.le_refl 2
    · exact Nat.le_succ 1
  unfold keyWidth simpleKey scalar
  split
  · have hle := length_foldWords_le hitself (0 + 2) hline none 0
    omega
  · have hle := length_foldWords_le hquote (0 + 2) hline none (0 + 1)
    rw [List.length_append, List.length_append]
    change 1 + _ + 1 ≤ _
    omega
  · have hle := length_doubleQuotedBody_le (0 + 2) t true false (0 + 1)
    rw [List.length_append, List.length_append]
    change 1 + _ + 1 ≤ _
    omega

lemma length_simpleKey (h : isSimpleKey t = true) (indent : Nat) :
    (simpleKey indent t).length = keyWidth t := by
  unfold keyWidth simpleKey
  rw [scalar_false_eq h]

end Schematic.Yaml
