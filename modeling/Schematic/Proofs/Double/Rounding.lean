import Mathlib.Tactic.Lemma
import Mathlib.Tactic.Ring
import Schematic.Double.Shortest

/-!
# Rounding to doubles

Every fraction in the interval that `Magnitude.holds` describes rounds to the magnitude, whatever
the power of two at which the rounding starts. Just below a power of two that is one power less than
that of the magnitude, and the rounded mantissa carries.
-/

namespace Schematic

/-- A quotient is rounded to the integer that it is nearest to, to the even one if there are two. -/
lemma roundedQuotient_eq {n d k : Nat} (hlow : 2 * (k * d) ≤ 2 * n + d)
    (hhigh : 2 * n ≤ 2 * (k * d) + d)
    (hodd : k % 2 = 1 → 2 * (k * d) < 2 * n + d ∧ 2 * n < 2 * (k * d) + d) (hd : 0 < d) :
    roundedQuotient n d = k := by
  have hn : d * (n / d) + n % d = n := Nat.div_add_mod n d
  have hr : n % d < d := Nat.mod_lt n hd
  unfold roundedQuotient
  generalize hq : n / d = q at *
  generalize n % d = r at *
  have hq0 : q * d = d * q := Nat.mul_comm q d
  -- Only the two neighbours of the quotient are near enough.
  have hk : k = q ∨ k = q + 1 := by
    by_contra hne
    rcases Nat.lt_or_ge k q with hlt | hge
    · have := Nat.mul_le_mul_right d (show k + 1 ≤ q by omega)
      rw [Nat.add_mul] at this
      omega
    · have := Nat.mul_le_mul_right d (show q + 2 ≤ k by omega)
      rw [Nat.add_mul] at this
      omega
  rcases hk with rfl | rfl
  · by_cases hlt : 2 * r < d
    · simp [hlt]
    · have heq : 2 * r = d := by omega
      simp only [heq, Nat.lt_irrefl, if_false]
      omega
  · rw [Nat.add_mul, Nat.one_mul] at hlow hhigh hodd
    by_cases hgt : d < 2 * r
    · simp only [show ¬ 2 * r < d by omega, if_false, gt_iff_lt, hgt, if_true]
    · have heq : 2 * r = d := by omega
      simp only [heq, gt_iff_lt, Nat.lt_irrefl, if_false]
      omega

/-- A quotient is rounded alike when both sides are multiplied. -/
lemma roundedQuotient_mul_right (n d : Nat) {k : Nat} (hk : 0 < k) :
    roundedQuotient (n * k) (d * k) = roundedQuotient n d := by
  have hlt : 2 * (n % d * k) < d * k ↔ 2 * (n % d) < d := by
    rw [← Nat.mul_assoc]
    exact Nat.mul_lt_mul_right hk
  have hgt : 2 * (n % d * k) > d * k ↔ 2 * (n % d) > d := by
    rw [← Nat.mul_assoc]
    exact Nat.mul_lt_mul_right hk
  simp only [roundedQuotient, Nat.mul_div_mul_right _ _ hk, Nat.mul_mod_mul_right, hlt, hgt]

namespace Magnitude

variable {m : Magnitude} {n d : Nat}

lemma holds_le (h : m.holds n d = true) :
    m.lowQuarters * d ≤ n ∧ n ≤ m.highQuarters * d := by
  unfold holds at h
  split at h <;> simp only [Bool.and_eq_true, decide_eq_true_eq] at h <;> omega

lemma holds_lt (h : m.holds n d = true) (hodd : m.mantissa % 2 = 1) :
    m.lowQuarters * d < n ∧ n < m.highQuarters * d := by
  unfold holds at h
  rw [if_neg (by omega)] at h
  simpa only [Bool.and_eq_true, decide_eq_true_eq] using h

end Magnitude

namespace Double

variable {m : Magnitude} {n d : Nat}

lemma ofParts_eq (negative : Bool) (m : Magnitude) :
    ofParts negative m.mantissa m.exponent = .finite negative m :=
  dif_pos ⟨m.mantissa_lt, m.exponent_le, m.normal⟩

/-- The number of bits of a quotient that lies between two powers of two. -/
private lemma log2_div_eq (hd : 0 < d) {k : Nat} (hlow : 2 ^ k * d ≤ n)
    (hhigh : n < 2 ^ (k + 1) * d) : Nat.log2 (n / d) = k := by
  have hle : 2 ^ k ≤ n / d := (Nat.le_div_iff_mul_le hd).mpr hlow
  have hne : n / d ≠ 0 := by
    have := Nat.two_pow_pos k
    omega
  rw [Nat.log2_eq_iff hne]
  exact ⟨hle, (Nat.div_lt_iff_lt_mul hd).mpr hhigh⟩

/-- A quotient has as many bits as a mantissa in units of a power of two. -/
private lemma log2_div_eq_add (hd : 0 < d) {e : Nat} (hlow : 2 ^ 52 * (d * 2 ^ e) ≤ n)
    (hhigh : n < 2 ^ 53 * (d * 2 ^ e)) : Nat.log2 (n / d) = 52 + e := by
  have hunit (k : Nat) : 2 ^ (k + e) * d = 2 ^ k * (d * 2 ^ e) := by ring
  refine log2_div_eq hd ?_ ?_
  · rwa [hunit]
  · rwa [show 52 + e + 1 = 53 + e by omega, hunit]

/-- A quotient below the normal mantissas has no more bits than they. -/
private lemma log2_div_lt (hd : 0 < d) (hn : n < 2 ^ 53 * d) : Nat.log2 (n / d) < 53 := by
  by_cases hne : n / d = 0
  · rw [hne]
    decide
  · exact (Nat.log2_lt hne).mpr ((Nat.div_lt_iff_lt_mul hd).mpr hn)

/-- The rounding starts at the exponent of the magnitude. -/
private lemma ofSteps_of_exponent (negative : Bool) (hd : 0 < d)
    (h : m.holds (4 * n) (d * 2 ^ m.exponent) = true)
    (hexponent : Nat.log2 (n / d) + 1 - 53 = m.exponent) :
    ofSteps negative n d = .finite negative m := by
  have hpos : 0 < d * 2 ^ m.exponent := Nat.mul_pos hd (Nat.two_pow_pos _)
  have hround : roundedQuotient n (d * 2 ^ m.exponent) = m.mantissa := by
    -- The quarter steps that the mantissa holds are those that are rounded to it.
    have hle := m.holds_le h
    have hlt := m.holds_lt h
    generalize d * 2 ^ m.exponent = g at *
    have hlow : (4 * m.mantissa - 2) * g ≤ m.lowQuarters * g := by
      refine Nat.mul_le_mul_right g ?_
      unfold Magnitude.lowQuarters
      split <;> omega
    have hhigh : m.highQuarters * g = 4 * (m.mantissa * g) + 2 * g := by
      rw [Magnitude.highQuarters, Nat.add_mul, Nat.mul_assoc]
    have hlow' : 4 * (m.mantissa * g) ≤ (4 * m.mantissa - 2) * g + 2 * g := by
      rw [← Nat.add_mul, ← Nat.mul_assoc]
      exact Nat.mul_le_mul_right g (by omega)
    refine roundedQuotient_eq (by omega) (by omega) (fun hodd => ?_) hpos
    have := hlt hodd
    omega
  have hne : m.mantissa ≠ 2 ^ 53 := Nat.ne_of_lt m.mantissa_lt
  rw [ofSteps]
  simp only [hexponent, hround, if_neg hne]
  exact ofParts_eq negative m

/-- The rounding starts just below the magnitude, which is a power of two. -/
private lemma ofSteps_of_carry (negative : Bool) (hd : 0 < d) {e : Nat}
    (he : m.exponent = e + 1) (hm : m.mantissa = 2 ^ 52)
    (h : m.holds (4 * n) (d * 2 ^ m.exponent) = true) (hn : n < 2 ^ 52 * (d * 2 ^ m.exponent)) :
    ofSteps negative n d = .finite negative m := by
  have hpos : 0 < d * 2 ^ e := Nat.mul_pos hd (Nat.two_pow_pos _)
  have hdouble : d * 2 ^ m.exponent = 2 * (d * 2 ^ e) := by
    rw [he, Nat.pow_succ]
    ring
  have hlow : (2 ^ 54 - 1) * (d * 2 ^ m.exponent) ≤ 4 * n := by
    refine Nat.le_trans (Nat.mul_le_mul_right _ ?_) (m.holds_le h).1
    rw [Magnitude.lowQuarters, if_pos ⟨hm, by omega⟩, hm]
  rw [hdouble] at hlow hn
  have hlog : Nat.log2 (n / d) = 52 + e := log2_div_eq_add hd (by omega) (by omega)
  have hround : roundedQuotient n (d * 2 ^ e) = 2 ^ 53 := by
    refine roundedQuotient_eq (by omega) (by omega) (fun hodd => ?_) hpos
    exact absurd hodd (by decide)
  rw [ofSteps]
  simp only [hlog, show 52 + e + 1 - 53 = e by omega, hround, if_true]
  rw [← hm, ← he]
  exact ofParts_eq negative m

/-- What lies in the interval of a magnitude rounds to it. -/
theorem ofSteps_eq_of_holds (negative : Bool) (hd : 0 < d)
    (h : m.holds (4 * n) (d * 2 ^ m.exponent) = true) :
    ofSteps negative n d = .finite negative m := by
  have hpos : 0 < d * 2 ^ m.exponent := Nat.mul_pos hd (Nat.two_pow_pos _)
  have hupper : n < 2 ^ 53 * (d * 2 ^ m.exponent) := by
    have hhigh : 4 * n ≤ (2 ^ 55 - 2) * (d * 2 ^ m.exponent) := by
      refine Nat.le_trans (m.holds_le h).2 (Nat.mul_le_mul_right _ ?_)
      have := m.mantissa_lt
      rw [Magnitude.highQuarters]
      omega
    omega
  rcases Nat.eq_zero_or_pos m.exponent with hzero | hpositive
  · -- In the least binade no power is taken out.
    refine ofSteps_of_exponent negative hd h ?_
    rw [hzero, Nat.pow_zero, Nat.mul_one] at hupper
    have hlog := log2_div_lt hd hupper
    omega
  · have hnormal : 2 ^ 52 ≤ m.mantissa := m.normal.resolve_left (by omega)
    obtain ⟨e, he⟩ : ∃ e, m.exponent = e + 1 := ⟨m.exponent - 1, by omega⟩
    by_cases hn : 2 ^ 52 * (d * 2 ^ m.exponent) ≤ n
    · -- Within the binade the logarithm gives the exponent back.
      refine ofSteps_of_exponent negative hd h ?_
      have hlog := log2_div_eq_add hd hn hupper
      omega
    · -- Just below the binade the quotient is rounded up into it, as only the least mantissa has a
      -- neighbour so close.
      refine ofSteps_of_carry negative hd he ?_ h (by omega)
      by_contra hne
      have hlow : (2 ^ 54 + 2) * (d * 2 ^ m.exponent) ≤ 4 * n := by
        refine Nat.le_trans (Nat.mul_le_mul_right _ ?_) (m.holds_le h).1
        rw [Magnitude.lowQuarters, if_neg fun hmantissa => hne hmantissa.1]
        omega
      omega

/-- A common factor of a fraction does not matter. -/
lemma ofSteps_mul_right (negative : Bool) (n d : Nat) {k : Nat} (hk : 0 < k) :
    ofSteps negative (n * k) (d * k) = ofSteps negative n d := by
  have hmul (e : Nat) : d * k * 2 ^ e = d * 2 ^ e * k := by ring
  simp only [ofSteps, Nat.mul_div_mul_right _ _ hk, hmul, roundedQuotient_mul_right _ _ hk]

end Double

end Schematic
