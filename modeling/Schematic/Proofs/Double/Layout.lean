import Schematic.Double.Layout
import Schematic.Proofs.Double.Shortest

/-!
# Laid-out numbers as numerals

Whatever a layout chooses, the text of a finite double is a numeral of JSON, and the value of the
numeral is the double. The readers only have to take the numeral apart again.
-/

namespace Schematic

namespace Json.Numeral

def signText (negative : Bool) : Text := if negative then [.char '-'] else []

def fractionText : Option Text → Text
  | none => []
  | some f => .char '.' :: f

/-- The text of an exponent, if there is one: it has a sign and at least `width` digits. -/
def exponentText (width : Nat) : Option Int → Text
  | none => []
  | some e =>
    .char 'e' :: (if e < 0 then .char '-' else .char '+') :: Text.padded width e.natAbs

def spelled (width : Nat) (n : Numeral) : Text :=
  signText n.negative ++ n.whole ++ fractionText n.fraction ++ exponentText width n.exponent

/-- The parts of a numeral are digits, and the whole part has no superfluous zeros. -/
structure IsProper (n : Numeral) : Prop where
  whole_ne_nil : n.whole ≠ []
  whole_isDigits : n.whole.IsDigits
  whole_head : n.whole = [.char '0'] ∨ n.whole.head? ≠ some (.char '0')
  fraction_ne_nil : ∀ f, n.fraction = some f → f ≠ []
  fraction_isDigits : ∀ f, n.fraction = some f → f.IsDigits

lemma value_of_fraction (negative : Bool) (whole f : Text) (e : Option Int) :
    (Numeral.mk negative whole (some f) e).value =
      .float (Double.ofDecimal negative (digitsValue (whole ++ f)) (e.getD 0 - f.length)) := by
  simp [Numeral.value, Numeral.isWhole]

lemma value_of_exponent (negative : Bool) (whole : Text) (e : Int) :
    (Numeral.mk negative whole none (some e)).value =
      .float (Double.ofDecimal negative (digitsValue whole) e) := by
  simp [Numeral.value, Numeral.isWhole]

end Json.Numeral

namespace Double.Layout

open Json Text

variable {d : Decimal} {m : Magnitude}

lemma head?_ofChars_ne {cs : List Char} (h : cs.head? ≠ some '0') :
    (ofChars cs).head? ≠ some (.char '0') := by
  cases cs with
  | nil => simp [ofChars]
  | cons c cs => simpa [ofChars] using h

lemma ofChars_ne_nil {cs : List Char} (h : cs ≠ []) : ofChars cs ≠ [] := by
  simpa [ofChars] using h

/-- The parts are those of a numeral, and with either sign its value has the magnitude. -/
structure Spells (m : Magnitude) (whole : Text) (fraction : Option Text) (exponent : Option Int) :
    Prop where
  isProper : ∀ negative, (Numeral.mk negative whole fraction exponent).IsProper
  value_eq :
    ∀ negative, (Numeral.mk negative whole fraction exponent).value = .float (.finite negative m)

/-- Parts with a fraction spell what their digits together give. -/
lemma spells_of_fraction {whole f : Text} {e : Option Int} (hwhole : whole ≠ [])
    (hdigits : whole.IsDigits) (hhead : whole = [.char '0'] ∨ whole.head? ≠ some (.char '0'))
    (hne : f ≠ []) (hf : f.IsDigits)
    (hvalue : ∀ negative, Double.ofDecimal negative (digitsValue (whole ++ f)) (e.getD 0 - f.length)
      = .finite negative m) : Spells m whole (some f) e where
  isProper negative := by
    refine ⟨hwhole, hdigits, hhead, ?_, ?_⟩
    · rintro _ ⟨⟩
      exact hne
    · rintro _ ⟨⟩
      exact hf
  value_eq negative := by rw [Numeral.value_of_fraction, hvalue negative]

/-! ### Positional notation -/

/-- The point stands before the digits. -/
lemma spells_before (hd : m.IsSpelled d) (hpoint : d.point ≤ 0) :
    Spells m [.char '0'] (some (ofChars (List.replicate (-d.point).toNat '0') ++ ofChars d.digits))
      none := by
  refine spells_of_fraction (by simp) (isDigits_zeros 1) (.inl rfl) ?_ ?_ fun negative => ?_
  · simp [ofChars_ne_nil hd.ne_nil]
  · exact (isDigits_zeros _).append hd.isDigits
  · rw [← hd.ofDecimal_eq negative, digitsValue_append, digitsValue_append, digitsValue_zeros]
    congr 1
    · simp [digitsValue, CodePoint.hexDigit?]
    · simp only [Option.getD_none, List.length_append, length_ofChars, List.length_replicate]
      omega

/-- The point stands after the digits and some zeros. -/
lemma spells_after (hd : m.IsSpelled d) {k : Nat} (hk : d.point = d.digits.length + k) :
    Spells m (ofChars d.digits ++ ofChars (List.replicate k '0')) (some [.char '0']) none := by
  refine spells_of_fraction ?_ ?_ ?_ (by simp) (isDigits_zeros 1) fun negative => ?_
  · simp [ofChars_ne_nil hd.ne_nil]
  · exact hd.isDigits.append (isDigits_zeros _)
  · rcases hd.head_ne with hhead | rfl
    · obtain ⟨c, cs, hcs⟩ := List.exists_cons_of_ne_nil hd.ne_nil
      rw [hcs] at hhead ⊢
      exact .inr (by simpa [ofChars] using hhead)
    · have hk0 : k = 0 := by simpa using hk.symm
      exact .inl (by rw [hk0]; rfl)
  · have hshift := ofDecimal_mul_pow_ten negative (digitsValue (ofChars d.digits)) k (k + 1)
    rw [← hd.ofDecimal_eq negative, hk,
      show ((d.digits.length : Int) + k - d.digits.length) = k by omega, ← hshift,
      digitsValue_append, digitsValue_append, digitsValue_zeros]
    congr 1
    · simp [digitsValue, CodePoint.hexDigit?, Nat.pow_succ, Nat.mul_assoc]
    · simp

/-- The point stands among the digits. -/
lemma spells_among (hd : m.IsSpelled d) (hpoint : 0 < d.point)
    (hlength : d.point < d.digits.length) :
    Spells m (ofChars (d.digits.take d.point.toNat)) (some (ofChars (d.digits.drop d.point.toNat)))
      none := by
  have hsplit : ofChars (d.digits.take d.point.toNat) ++ ofChars (d.digits.drop d.point.toNat)
      = ofChars d.digits := by rw [← ofChars_append, List.take_append_drop]
  refine spells_of_fraction ?_ ?_ (.inr ?_) ?_ ?_ fun negative => ?_
  · -- The point is past the first digit, so the whole part is not empty.
    refine ofChars_ne_nil fun h => ?_
    rw [List.take_eq_nil_iff] at h
    rcases h with h | h
    · omega
    · exact hd.ne_nil h
  · exact fun c hc => hd.isDigits c (hsplit ▸ List.mem_append_left _ hc)
  · -- Only the digits of zero start with a zero, and they end at the point.
    refine head?_ofChars_ne ?_
    rcases hd.head_ne with hhead | rfl
    · rwa [List.head?_take, if_neg (by omega)]
    · exact absurd hlength (Int.lt_irrefl 1)
  · -- A digit is left for the fraction.
    refine ofChars_ne_nil fun h => ?_
    rw [List.drop_eq_nil_iff] at h
    omega
  · exact fun c hc => hd.isDigits c (hsplit ▸ List.mem_append_right _ hc)
  · rw [← hd.ofDecimal_eq negative, hsplit]
    congr 1
    simp only [Option.getD_none, length_ofChars, List.length_drop]
    omega

/-- The digits of a decimal with the point before them, after them or among them. -/
lemma exists_positional_eq (hd : m.IsSpelled d) :
    ∃ whole f : Text, positional d = whole ++ .char '.' :: f ∧
      (whole.length : Int) ≤ max 1 d.point ∧ Spells m whole (some f) none := by
  unfold positional
  by_cases hpoint : d.point ≤ 0
  · exact ⟨_, _, by simp [hpoint, ofString], by simp, spells_before hd hpoint⟩
  rw [if_neg hpoint]
  by_cases hlength : (d.digits.length : Int) ≤ d.point
  · obtain ⟨k, hk⟩ : ∃ k : Nat, d.point = d.digits.length + k :=
      ⟨(d.point - d.digits.length).toNat, by omega⟩
    have hzeros : (d.point - d.digits.length).toNat = k := by omega
    exact ⟨_, _, by simp [hlength, hzeros, ofString], by simp [hk], spells_after hd hk⟩
  · refine ⟨_, _, by simp [hlength, ofString], ?_, spells_among hd (by omega) (by omega)⟩
    simp only [length_ofChars, List.length_take]
    omega

/-! ### Scientific notation -/

/-- An exponent is spelled with its sign and with as many digits as the layout asks for. -/
lemma exponent_eq (l : Layout) (n : Int) :
    l.exponent n = Numeral.exponentText l.exponentWidth (some n) := by
  by_cases hneg : n < 0
  · simp only [exponent, Numeral.exponentText, hneg, if_true]
    rfl
  · simp only [exponent, Numeral.exponentText, hneg, if_false]
    rfl

/-- The first digit can stand alone in front of the point. -/
lemma first_digit (hd : m.IsSpelled d) (hzero : d ≠ ⟨['0'], 1⟩) {c : Char} {cs : List Char}
    (hcs : d.digits = c :: cs) :
    (ofChars [c]).IsDigits ∧ (ofChars [c]).head? ≠ some (.char '0') := by
  have hdigits := hd.isDigits
  have hhead := hd.head_ne.resolve_right hzero
  rw [hcs] at hdigits hhead
  refine ⟨fun e he => ?_, head?_ofChars_ne hhead⟩
  exact hdigits e (List.mem_of_mem_head? (by simpa [ofChars, eq_comm] using he))

/-- A single digit without a point. -/
lemma spells_single (hd : m.IsSpelled d) (hzero : d ≠ ⟨['0'], 1⟩) {c : Char}
    (hcs : d.digits = [c]) :
    Spells m (ofChars [c]) none (some (d.point - 1)) where
  isProper negative := by
    obtain ⟨hwhole, hhead⟩ := first_digit hd hzero hcs
    refine ⟨by simp [ofChars], hwhole, .inr hhead, ?_, ?_⟩
    · rintro f ⟨⟩
    · rintro f ⟨⟩
  value_eq negative := by
    rw [Numeral.value_of_exponent, ← hd.ofDecimal_eq negative, hcs]
    rfl

/-- A single digit with a zero after the point. -/
lemma spells_single_zero (hd : m.IsSpelled d) (hzero : d ≠ ⟨['0'], 1⟩) {c : Char}
    (hcs : d.digits = [c]) :
    Spells m (ofChars [c]) (some [.char '0']) (some (d.point - 1)) := by
  obtain ⟨hwhole, hhead⟩ := first_digit hd hzero hcs
  refine spells_of_fraction (by simp [ofChars]) hwhole (.inr hhead) (by simp) (isDigits_zeros 1)
    fun negative => ?_
  have hshift := ofDecimal_mul_ten negative (digitsValue (ofChars [c])) (d.point - 1)
  rw [← hd.ofDecimal_eq negative, hcs]
  simp only [List.length_singleton]
  rw [show ((1 : Nat) : Int) = 1 from rfl, ← hshift, digitsValue_append]
  rfl

/-- The point stands after the first of several digits. -/
lemma spells_first (hd : m.IsSpelled d) (hzero : d ≠ ⟨['0'], 1⟩) {c e : Char} {es : List Char}
    (hcs : d.digits = c :: e :: es) :
    Spells m (ofChars [c]) (some (ofChars (e :: es))) (some (d.point - 1)) := by
  obtain ⟨hwhole, hhead⟩ := first_digit hd hzero hcs
  have hvalue := hd.ofDecimal_eq
  have hdigits := hd.isDigits
  rw [hcs] at hvalue hdigits
  refine spells_of_fraction (by simp [ofChars]) hwhole (.inr hhead) (by simp [ofChars])
    (fun a ha => hdigits a (List.mem_cons_of_mem _ ha)) fun negative => ?_
  rw [← hvalue negative, ← ofChars_append]
  congr 1
  simp
  omega

/-- The first digit of a decimal, a point with all others if there are any, and an exponent. -/
lemma exists_scientific_eq (l : Layout) (hd : m.IsSpelled d) (hzero : d ≠ ⟨['0'], 1⟩) :
    ∃ (whole : Text) (f : Option Text),
      l.scientific d = whole ++ Numeral.fractionText f
        ++ Numeral.exponentText l.exponentWidth (some (d.point - 1)) ∧
      whole.length = 1 ∧ (l.pointBeforeExponent = true → f.isSome) ∧
      Spells m whole f (some (d.point - 1)) := by
  rw [scientific, exponent_eq]
  match hcs : d.digits with
  | [] => exact absurd hcs hd.ne_nil
  | [c] =>
    by_cases hpoint : l.pointBeforeExponent = true
    · exact ⟨ofChars [c], some [.char '0'], by simp [hpoint, Numeral.fractionText, ofString], rfl,
        fun _ => rfl, spells_single_zero hd hzero hcs⟩
    · exact ⟨ofChars [c], none, by simp [hpoint, Numeral.fractionText], rfl,
        fun h => absurd h hpoint, spells_single hd hzero hcs⟩
  | c :: e :: es =>
    exact ⟨ofChars [c], some (ofChars (e :: es)), by simp [Numeral.fractionText, ofString], rfl,
      fun _ => rfl, spells_first hd hzero hcs⟩

/-- The text of a finite double is a numeral with a fraction or an exponent, and the value of the
numeral is the double. -/
theorem exists_numeral (l : Layout) (hleast : l.leastPoint ≤ 1) (hgreatest : 1 ≤ l.greatestPoint)
    (negative : Bool) (m : Magnitude) :
    ∃ n : Numeral, n.IsProper ∧ l.text (.finite negative m) = n.spelled l.exponentWidth ∧
      n.value = .float (.finite negative m) ∧ n.isWhole = false ∧
      (n.whole.length : Int) ≤ l.greatestPoint ∧
      (l.pointBeforeExponent = true → n.fraction.isSome) := by
  have hd := m.isSpelled_shortest
  have hsign : (if negative then ofString "-" else []) = Numeral.signText negative := rfl
  simp only [text, hsign]
  generalize m.shortest = d at hd ⊢
  split
  · -- The digits are laid out around the point.
    obtain ⟨whole, f, htext, hlength, h⟩ := exists_positional_eq hd
    refine ⟨⟨negative, whole, some f, none⟩, h.isProper negative, ?_, h.value_eq negative, rfl, ?_,
      fun _ => rfl⟩
    · simp [htext, Numeral.spelled, Numeral.fractionText, Numeral.exponentText]
    · simp only
      omega
  · -- An exponent is written, so the number is not zero, whose point is in the range.
    rename_i hrange
    have hzero : d ≠ ⟨['0'], 1⟩ := by
      rintro rfl
      exact hrange ⟨hleast, hgreatest⟩
    obtain ⟨whole, f, htext, hlength, hpoint, h⟩ := exists_scientific_eq l hd hzero
    refine ⟨⟨negative, whole, f, some (d.point - 1)⟩, h.isProper negative, ?_, h.value_eq negative,
      ?_, ?_, hpoint⟩
    · simp [htext, Numeral.spelled]
    · simp [Numeral.isWhole]
    · simp only [hlength]
      omega

end Double.Layout

end Schematic
