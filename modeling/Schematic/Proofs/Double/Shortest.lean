import Schematic.Proofs.Double.Rounding
import Schematic.Proofs.Text.Digit

/-!
# Shortest decimals read back

A decimal that `Magnitude.holdsDecimal` lets pass rounds to the magnitude. Seventeen digits are
always enough to find one: the multiples of a power of ten then lie closer together than the
doubles, so that one of the two neighbours of the magnitude is in its interval.
-/

namespace Schematic

namespace Double

lemma stepsOfOne_pos : 0 < stepsOfOne := by
  unfold stepsOfOne
  exact Nat.two_pow_pos 1074

/-! ### Decimals with zeros at their end -/

private lemma length_toDigits_mul_ten {c : Nat} (hc : c ≠ 0) :
    (Nat.toDigits 10 (c * 10)).length = (Nat.toDigits 10 c).length + 1 := by
  rw [Nat.toDigits_of_base_le (by decide) (by omega), Nat.mul_div_cancel c (by decide),
    List.length_append, List.length_singleton]

/-- A zero at the end of the digits does not matter. -/
lemma ofDecimal_mul_ten (negative : Bool) (c : Nat) (power : Int) :
    ofDecimal negative (c * 10) (power - 1) = ofDecimal negative c power := by
  by_cases hc : c = 0
  · simp [ofDecimal, hc]
  have hplaces : ((Nat.toDigits 10 (c * 10)).length : Int) + (power - 1)
      = (Nat.toDigits 10 c).length + power := by
    rw [length_toDigits_mul_ten hc]
    omega
  have hc10 : c * 10 ≠ 0 := by omega
  simp only [ofDecimal, hplaces, hc, hc10, false_or]
  -- The factor goes to the numerator, or it cancels one of the denominator.
  have hratio : (if 0 ≤ power - 1 then ofRatio negative (c * 10 * 10 ^ (power - 1).toNat) 1
        else ofRatio negative (c * 10) (10 ^ (-(power - 1)).toNat))
      = if 0 ≤ power then ofRatio negative (c * 10 ^ power.toNat) 1
        else ofRatio negative c (10 ^ (-power).toNat) := by
    rcases Int.lt_trichotomy power 0 with hneg | rfl | hpos
    · rw [if_neg (by omega), if_neg (by omega),
        show (-(power - 1)).toNat = (-power).toNat + 1 by omega, Nat.pow_succ]
      rw [ofRatio, Nat.mul_right_comm, ofSteps_mul_right _ _ _ (by decide), ofRatio]
    · have h := ofSteps_mul_right negative (c * stepsOfOne) 1 (show 0 < 10 by decide)
      rw [Nat.mul_right_comm] at h
      simpa [ofRatio] using h
    · rw [if_pos (by omega), if_pos (by omega),
        show power.toNat = (power - 1).toNat + 1 by omega, Nat.pow_succ]
      congr 1
      ring
  rw [hratio]

/-- A decimal stays the same when zeros are put behind its digits. -/
lemma ofDecimal_mul_pow_ten (negative : Bool) (c : Nat) (power : Int) (z : Nat) :
    ofDecimal negative (c * 10 ^ z) (power - z) = ofDecimal negative c power := by
  induction z with
  | zero => simp
  | succ z ih =>
    rw [← ih, ← ofDecimal_mul_ten negative (c * 10 ^ z), Nat.pow_succ, Nat.mul_assoc]
    congr 1
    omega

end Double

namespace Magnitude

variable {m : Magnitude} {c : Nat} {power : Int}

/-! ### Decimals in the interval of a magnitude -/

/-- What one in the decimal `c * 10 ^ power` is, next to `unit`. -/
private def denominator (power : Int) : Nat :=
  if 0 ≤ power then Double.stepsOfOne * 10 ^ power.toNat else Double.stepsOfOne

/-- What one in the mantissa is, next to `denominator`. -/
private def unit (m : Magnitude) (power : Int) : Nat :=
  if 0 ≤ power then 2 ^ m.exponent else 2 ^ m.exponent * 10 ^ (-power).toNat

/-- The denominator counts the steps of the double in one unit of the decimal. -/
private lemma denominator_eq (power : Int) :
    denominator power = Double.stepsOfOne * 10 ^ power.toNat := by
  unfold denominator
  split
  · rfl
  · rw [show power.toNat = 0 by omega, Nat.pow_zero, Nat.mul_one]

/-- A unit of the decimal is a power of two and of ten. -/
private lemma unit_eq (m : Magnitude) (power : Int) :
    m.unit power = 2 ^ m.exponent * 10 ^ (-power).toNat := by
  unfold unit
  split
  · rw [show (-power).toNat = 0 by omega, Nat.pow_zero, Nat.mul_one]
  · rfl

private lemma unit_pos (m : Magnitude) (power : Int) : 0 < m.unit power := by
  rw [unit_eq]
  exact Nat.mul_pos (Nat.two_pow_pos _) (Nat.pow_pos (by decide))

private lemma denominator_pos (power : Int) : 0 < denominator power := by
  rw [denominator_eq]
  exact Nat.mul_pos Double.stepsOfOne_pos (Nat.pow_pos (by decide))

private lemma scaled_eq (m : Magnitude) (power : Int) :
    m.scaled power = (m.mantissa * m.unit power, denominator power) := by
  simp only [scaled, unit, denominator, numerator, steps]
  split <;> simp only [Nat.mul_assoc]

/-- A decimal is held by a double if it is in the interval of quarters around it. -/
private lemma holdsDecimal_eq (m : Magnitude) (c : Nat) (power : Int) :
    m.holdsDecimal c power = m.holds (4 * (c * denominator power)) (m.unit power) := by
  simp only [holdsDecimal, unit, denominator]
  split
  · congr 1
    ring
  · congr 1
    ring

/-- What rounds to a magnitude is at least a quarter of a step and at most the greatest double. -/
private lemma bounds_of_holdsDecimal (hm : m.mantissa ≠ 0) (h : m.holdsDecimal c power = true) :
    10 ^ (-power).toNat ≤ 4 * Double.stepsOfOne * (c * 10 ^ power.toNat) ∧
      c * 10 ^ power.toNat ≤ 2 ^ 1024 * 10 ^ (-power).toNat := by
  rw [holdsDecimal_eq] at h
  have hle := holds_le h
  have hlow : m.unit power ≤ 4 * (c * denominator power) := by
    -- The least quarter that is held is one, and the greatest is below four times `2 ^ 53`.
    refine Nat.le_trans (Nat.le_mul_of_pos_left _ ?_) hle.1
    unfold lowQuarters
    split <;> omega
  have hhigh : c * denominator power ≤ 2 ^ 53 * m.unit power := by
    have hquarters := Nat.mul_le_mul_right (m.unit power)
      (show m.highQuarters ≤ 4 * 2 ^ 53 by
        have := m.mantissa_lt
        rw [highQuarters]
        omega)
    rw [Nat.mul_assoc] at hquarters
    omega
  have hexponent : 2 ^ 53 * 2 ^ m.exponent ≤ Double.stepsOfOne * 2 ^ 1024 := by
    unfold Double.stepsOfOne
    rw [← Nat.pow_add, ← Nat.pow_add 2 1074 1024]
    have := m.exponent_le
    exact Nat.pow_le_pow_right (by decide) (by omega)
  rw [denominator_eq, unit_eq] at hlow hhigh
  -- Both bounds are turned into bounds without the exponent of the double.
  constructor
  · calc 10 ^ (-power).toNat ≤ 2 ^ m.exponent * 10 ^ (-power).toNat :=
        Nat.le_mul_of_pos_left _ (Nat.two_pow_pos _)
      _ ≤ 4 * (c * (Double.stepsOfOne * 10 ^ power.toNat)) := hlow
      _ = 4 * Double.stepsOfOne * (c * 10 ^ power.toNat) := by ring
  · refine Nat.le_of_mul_le_mul_left ?_ Double.stepsOfOne_pos
    calc Double.stepsOfOne * (c * 10 ^ power.toNat)
        = c * (Double.stepsOfOne * 10 ^ power.toNat) := by ring
      _ ≤ 2 ^ 53 * (2 ^ m.exponent * 10 ^ (-power).toNat) := hhigh
      _ = 2 ^ 53 * 2 ^ m.exponent * 10 ^ (-power).toNat := by rw [Nat.mul_assoc]
      _ ≤ Double.stepsOfOne * 2 ^ 1024 * 10 ^ (-power).toNat := Nat.mul_le_mul_right _ hexponent
      _ = Double.stepsOfOne * (2 ^ 1024 * 10 ^ (-power).toNat) := by rw [Nat.mul_assoc]

/-- Zero is held by no other double. -/
private lemma ne_zero_of_holdsDecimal (hm : m.mantissa ≠ 0)
    (h : m.holdsDecimal c power = true) : c ≠ 0 := by
  rintro rfl
  have hlow := (bounds_of_holdsDecimal hm h).1
  have hpos : 0 < 10 ^ (-power).toNat := Nat.pow_pos (by decide)
  omega

private lemma lt_pow_places : 2 ^ 1024 < 10 ^ 330 ∧ 4 * Double.stepsOfOne < 10 ^ 330 := by
  unfold Double.stepsOfOne
  decide +kernel

/-- What rounds to a magnitude has a moderate number of places before the point. -/
private lemma places_of_holdsDecimal (hm : m.mantissa ≠ 0) (hc : c ≠ 0)
    (h : m.holdsDecimal c power = true) :
    -330 ≤ ((Nat.toDigits 10 c).length : Int) + power ∧
      ((Nat.toDigits 10 c).length : Int) + power ≤ 330 := by
  obtain ⟨hlow, hhigh⟩ := bounds_of_holdsDecimal hm h
  obtain ⟨hgreat, hsmall⟩ := lt_pow_places
  have hlength := Nat.length_toDigits_pos (b := 10) (n := c)
  -- The number of digits bounds the integer from both sides, and the exponents are compared.
  have hdigits : c < 10 ^ (Nat.toDigits 10 c).length :=
    (Nat.length_toDigits_le_iff (by decide) hlength).mp (Nat.le_refl _)
  have hdigits' : 10 ^ ((Nat.toDigits 10 c).length - 1) ≤ c := by
    rcases Nat.eq_zero_or_pos ((Nat.toDigits 10 c).length - 1) with hzero | hpos
    · rw [hzero]
      omega
    · have := mt (Nat.length_toDigits_le_iff (n := c) (show 1 < 10 by decide) hpos).mpr (by omega)
      omega
  generalize (Nat.toDigits 10 c).length = l at *
  have hupper : 10 ^ (l - 1 + power.toNat) < 10 ^ (330 + (-power).toNat) := by
    rw [Nat.pow_add, Nat.pow_add]
    calc 10 ^ (l - 1) * 10 ^ power.toNat ≤ c * 10 ^ power.toNat := Nat.mul_le_mul_right _ hdigits'
      _ ≤ 2 ^ 1024 * 10 ^ (-power).toNat := hhigh
      _ < 10 ^ 330 * 10 ^ (-power).toNat :=
        Nat.mul_lt_mul_of_pos_right hgreat (Nat.pow_pos (by decide))
  have hlower : 10 ^ (-power).toNat < 10 ^ (330 + (l + power.toNat)) := by
    rw [Nat.pow_add, Nat.pow_add]
    calc 10 ^ (-power).toNat ≤ 4 * Double.stepsOfOne * (c * 10 ^ power.toNat) := hlow
      _ ≤ 4 * Double.stepsOfOne * (10 ^ l * 10 ^ power.toNat) :=
        Nat.mul_le_mul_left _ (Nat.mul_le_mul_right _ (Nat.le_of_lt hdigits))
      _ < 10 ^ 330 * (10 ^ l * 10 ^ power.toNat) :=
        Nat.mul_lt_mul_of_pos_right hsmall
          (Nat.mul_pos (Nat.pow_pos (by decide)) (Nat.pow_pos (by decide)))
  rw [Nat.pow_lt_pow_iff_right (by decide)] at hupper hlower
  omega

/-- A decimal that rounds to a magnitude reads back as the magnitude. -/
theorem ofDecimal_of_holdsDecimal (negative : Bool) (hm : m.mantissa ≠ 0)
    (h : m.holdsDecimal c power = true) :
    Double.ofDecimal negative c power = .finite negative m := by
  have hc := ne_zero_of_holdsDecimal hm h
  have hplaces := places_of_holdsDecimal hm hc h
  rw [holdsDecimal_eq] at h
  unfold unit denominator at h
  simp only [Double.ofDecimal, hc, false_or]
  rw [if_neg (by omega), if_neg (by omega)]
  split at h
  · rename_i hpower
    rw [if_pos hpower, Double.ofRatio]
    refine Double.ofSteps_eq_of_holds negative Nat.one_pos ?_
    rw [Nat.one_mul, Nat.mul_assoc, Nat.mul_comm (10 ^ power.toNat)]
    exact h
  · rename_i hpower
    rw [if_neg hpower, Double.ofRatio]
    refine Double.ofSteps_eq_of_holds negative (Nat.pow_pos (by decide)) ?_
    rw [Nat.mul_comm (10 ^ (-power).toNat)]
    exact h

/-! ### The search for the shortest decimal -/

lemma numerator_pos (hm : m.mantissa ≠ 0) : 0 < m.numerator :=
  Nat.mul_pos (Nat.pos_of_ne_zero hm) (Nat.two_pow_pos _)

/-- The zeros are not counted past the first digit that is not zero. -/
lemma le_mul_pow_leadingZeros (n d fuel : Nat) (h : d ≤ n * 10 ^ fuel) :
    d ≤ n * 10 ^ (leadingZeros n d fuel + 1) := by
  induction fuel generalizing n with
  | zero =>
    rw [Nat.pow_zero] at h
    rw [leadingZeros]
    omega
  | succ fuel ih =>
    rw [leadingZeros]
    split
    · have := ih (n * 10) (by rwa [Nat.mul_assoc, ← Nat.pow_succ'])
      rwa [Nat.mul_assoc, ← Nat.pow_succ'] at this
    · omega

/-- A magnitude is at least the power of ten below `point`. -/
private lemma le_point (hm : m.mantissa ≠ 0) :
    Double.stepsOfOne * 10 ^ (m.point - 1).toNat ≤ m.numerator * 10 ^ (1 - m.point).toNat := by
  have hlarge : Double.stepsOfOne ≤ 10 ^ 400 := by
    unfold Double.stepsOfOne
    decide +kernel
  have hsteps := Double.stepsOfOne_pos
  have hpoint : m.point = if Double.stepsOfOne ≤ m.numerator then
      ((Nat.toDigits 10 (m.numerator / Double.stepsOfOne)).length : Int)
      else -(leadingZeros m.numerator Double.stepsOfOne 400 : Int) := rfl
  rw [hpoint]
  generalize Double.stepsOfOne = d at *
  split
  · -- The whole part has digits, and the point stands after them.
    rename_i hle
    generalize hlength : (Nat.toDigits 10 (m.numerator / d)).length = l
    have hpos : 0 < l := hlength ▸ Nat.length_toDigits_pos
    rw [show (1 - (l : Int)).toNat = 0 by omega, show ((l : Int) - 1).toNat = l - 1 by omega,
      Nat.pow_zero, Nat.mul_one, Nat.mul_comm]
    refine (Nat.le_div_iff_mul_le hsteps).mp ?_
    rcases Nat.eq_zero_or_pos (l - 1) with hzero | hmore
    · rw [hzero, Nat.pow_zero]
      exact Nat.div_pos hle hsteps
    · refine Nat.le_of_not_lt fun hlt => ?_
      have := (Nat.length_toDigits_le_iff (show 1 < 10 by decide) hmore).mpr hlt
      omega
  · -- The zeros after the point are counted, and one place less is too small.
    have := le_mul_pow_leadingZeros m.numerator d 400
      (Nat.le_trans hlarge (Nat.le_mul_of_pos_left _ (numerator_pos hm)))
    generalize leadingZeros m.numerator d 400 = k at *
    rw [show (-(k : Int) - 1).toNat = 0 by omega, Nat.pow_zero, Nat.mul_one,
      show (1 - -(k : Int)).toNat = k + 1 by omega]
    exact this

/-- Seventeen digits of a magnitude leave less than `10 ^ (-16)` of it. -/
private lemma denominator_le (hm : m.mantissa ≠ 0) :
    denominator (m.point - 17) * 10 ^ 16 ≤ m.mantissa * m.unit (m.point - 17) := by
  have hpoint := le_point hm
  rw [denominator_eq, unit_eq]
  have hupper : (m.point - 17).toNat + 16
      = (m.point - 1).toNat + ((-(m.point - 17)).toNat - (1 - m.point).toNat) := by omega
  have hlower : (-(m.point - 17)).toNat
      = (1 - m.point).toNat + ((-(m.point - 17)).toNat - (1 - m.point).toNat) := by omega
  generalize (-(m.point - 17)).toNat - (1 - m.point).toNat = k at *
  calc Double.stepsOfOne * 10 ^ (m.point - 17).toNat * 10 ^ 16
      = Double.stepsOfOne * 10 ^ (m.point - 1).toNat * 10 ^ k := by
        rw [Nat.mul_assoc, ← Nat.pow_add, hupper, Nat.pow_add, Nat.mul_assoc]
    _ ≤ m.numerator * 10 ^ (1 - m.point).toNat * 10 ^ k := Nat.mul_le_mul_right _ hpoint
    _ = m.mantissa * (2 ^ m.exponent * 10 ^ (-(m.point - 17)).toNat) := by
        rw [hlower, Nat.pow_add, numerator, steps]
        ring

lemma holds_of_lt {n d : Nat} (hlow : m.lowQuarters * d < n) (hhigh : n < m.highQuarters * d) :
    m.holds n d = true := by
  unfold holds
  split <;> simp <;> omega

/-- With seventeen digits one of the two neighbours of the magnitude is in its interval. -/
private lemma holdsDecimal_neighbour (hm : m.mantissa ≠ 0) :
    let below := (m.scaled (m.point - 17)).1 / (m.scaled (m.point - 17)).2
    m.holdsDecimal below (m.point - 17) = true ∨
      m.holdsDecimal (below + 1) (m.point - 17) = true := by
  simp only [scaled_eq, holdsDecimal_eq]
  have hle := denominator_le hm
  have hg := m.unit_pos (m.point - 17)
  have hd := denominator_pos (m.point - 17)
  generalize m.unit (m.point - 17) = g at *
  generalize denominator (m.point - 17) = d at *
  have hdiv := Nat.div_add_mod (m.mantissa * g) d
  have hmod := Nat.mod_lt (m.mantissa * g) hd
  generalize m.mantissa * g / d = b at *
  generalize m.mantissa * g % d = r at *
  rw [Nat.mul_comm d b] at hdiv
  have hhigh : m.highQuarters * g = 4 * (m.mantissa * g) + 2 * g := by
    rw [highQuarters, Nat.add_mul, Nat.mul_assoc]
  have hnext : (b + 1) * d = b * d + d := by rw [Nat.add_mul, Nat.one_mul]
  -- The interval reaches down by half a step, or by a quarter below a power of two.
  have hlow : m.lowQuarters * g < 4 * (m.mantissa * g) ∧
      4 * d + m.lowQuarters * g < 4 * (m.mantissa * g) + 2 * g := by
    unfold lowQuarters
    split
    · rename_i hboundary
      rw [hboundary.1, Nat.sub_mul]
      rw [hboundary.1] at hle
      omega
    · have hmantissa : m.mantissa * g ≤ 2 ^ 53 * g :=
        Nat.mul_le_mul_right g (Nat.le_of_lt m.mantissa_lt)
      have htwo : 2 * g ≤ 4 * m.mantissa * g := Nat.mul_le_mul_right g (by omega)
      rw [Nat.sub_mul]
      rw [Nat.mul_assoc 4] at htwo ⊢
      omega
  -- The interval is longer than one unit of the decimals, so one of two neighbours is inside.
  by_cases hbelow : m.lowQuarters * g < 4 * (b * d)
  · exact .inl (holds_of_lt hbelow (by omega))
  · exact .inr (holds_of_lt (by omega) (by omega))

/-- What is found as the nearest multiple of a power of ten rounds to the magnitude. -/
lemma holdsDecimal_of_nearest? (h : m.nearest? power = some c) :
    m.holdsDecimal c power = true := by
  unfold nearest? at h
  rw [scaled_eq] at h
  generalize m.mantissa * m.unit power = n, denominator power = d at h
  simp only at h
  generalize n / d = b at h
  cases hbelow : m.holdsDecimal b power <;> cases habove : m.holdsDecimal (b + 1) power <;>
    simp only [hbelow, habove] at h
  · exact absurd h (by simp)
  · exact Option.some.inj h ▸ habove
  · exact Option.some.inj h ▸ hbelow
  · split at h
    · exact Option.some.inj h ▸ hbelow
    · split at h
      · exact Option.some.inj h ▸ habove
      · obtain rfl := Option.some.inj h
        rcases Nat.mod_two_eq_zero_or_one b with heven | hodd
        · rw [heven, Nat.add_zero]
          exact hbelow
        · rw [hodd]
          exact habove

/-- Seventeen digits always tell a double from its neighbours. -/
lemma nearest?_seventeen (hm : m.mantissa ≠ 0) : (m.nearest? (m.point - 17)).isSome := by
  have hneighbour := holdsDecimal_neighbour hm
  unfold nearest?
  rw [scaled_eq] at hneighbour ⊢
  generalize m.mantissa * m.unit (m.point - 17) = n, denominator (m.point - 17) = d at *
  simp only at hneighbour ⊢
  generalize n / d = b at *
  rcases hneighbour with h | h <;> rw [h]
  · cases m.holdsDecimal (b + 1) (m.point - 17) with
    | false => rfl
    | true => split_ifs <;> rfl
  · cases m.holdsDecimal b (m.point - 17) with
    | false => rfl
    | true => split_ifs <;> rfl

/-- The search finds a decimal that rounds to the magnitude. -/
theorem holdsDecimal_shortestFrom (hm : m.mantissa ≠ 0) (count fuel : Nat)
    (hcount : count + fuel = 18) (hfuel : 0 < fuel) :
    m.holdsDecimal (m.shortestFrom count fuel).1 (m.shortestFrom count fuel).2 = true := by
  induction fuel generalizing count with
  | zero => omega
  | succ fuel ih =>
    unfold shortestFrom
    cases hnearest : m.nearest? (m.point - count) with
    | some c =>
      simp only [hnearest]
      exact holdsDecimal_of_nearest? hnearest
    | none =>
      simp only [hnearest]
      -- The search cannot come to its end, which is after seventeen digits.
      rcases Nat.eq_zero_or_pos fuel with hlast | hmore
      · have := nearest?_seventeen hm
        rw [show (count : Int) = 17 by omega] at hnearest
        rw [hnearest] at this
        exact absurd this Bool.false_ne_true
      · exact ih (count + 1) (by omega) hmore

/-! ### The digits of the shortest decimal -/

/-- The digits of a decimal are those of a magnitude: a first one that is not zero, unless it is the
only one, and a value that rounds to the magnitude. -/
structure IsSpelled (m : Magnitude) (d : Decimal) : Prop where
  ne_nil : d.digits ≠ []
  isDigits : (Text.ofChars d.digits).IsDigits
  head_ne : d.digits.head? ≠ some '0' ∨ d = ⟨['0'], 1⟩
  ofDecimal_eq : ∀ negative, Double.ofDecimal negative (Json.digitsValue (Text.ofChars d.digits))
    (d.point - d.digits.length) = .finite negative m

/-- Digits are followed by zeros where those at their end are dropped. -/
private lemma exists_trimmed (cs : List Char) :
    ∃ z, cs = (cs.reverse.dropWhile (· = '0')).reverse ++ List.replicate z '0' := by
  refine ⟨(cs.reverse.takeWhile (· = '0')).length, ?_⟩
  have hzeros : cs.reverse.takeWhile (· = '0')
      = List.replicate (cs.reverse.takeWhile (· = '0')).length '0' := by
    refine List.eq_replicate_of_mem fun c hc => ?_
    simpa using List.all_eq_true.mp List.all_takeWhile c hc
  calc cs = (cs.reverse.takeWhile (· = '0') ++ cs.reverse.dropWhile (· = '0')).reverse := by
        rw [List.takeWhile_append_dropWhile, List.reverse_reverse]
    _ = (cs.reverse.dropWhile (· = '0')).reverse ++ (cs.reverse.takeWhile (· = '0')).reverse :=
        List.reverse_append
    _ = _ := by rw [hzeros, List.reverse_replicate, List.length_replicate]

lemma isSpelled_zero : zero.IsSpelled ⟨['0'], 1⟩ where
  ne_nil := by simp
  isDigits := by simp [Text.isDigits_ofChars]
  head_ne := .inr rfl
  ofDecimal_eq _ := rfl

/-- The digits of a number that rounds to the magnitude, without the zeros at their end. -/
lemma isSpelled_of_holdsDecimal {m : Magnitude} {c : Nat} {power : Int} (hm : m.mantissa ≠ 0)
    (hholds : m.holdsDecimal c power = true) :
    m.IsSpelled ⟨((Nat.toDigits 10 c).reverse.dropWhile (· = '0')).reverse,
      (Nat.toDigits 10 c).length + power⟩ := by
  have hc := ne_zero_of_holdsDecimal hm hholds
  have hhead := Text.head?_toDigits_ne hc
  have hdigits : ∀ d ∈ Nat.toDigits 10 c, d.isDigit = true :=
    fun _ hd => Nat.isDigit_of_mem_toDigits (by decide) (by decide) hd
  have hvalue : Json.digitsValue (Text.ofChars (Nat.toDigits 10 c)) = c :=
    Json.digitsValue_ofNat c
  have hne : Nat.toDigits 10 c ≠ [] := Nat.toDigits_ne_nil
  obtain ⟨z, hz⟩ := exists_trimmed (Nat.toDigits 10 c)
  generalize ((Nat.toDigits 10 c).reverse.dropWhile (· = '0')).reverse = trimmed at *
  rw [hz] at hhead hdigits hvalue hne ⊢
  have htrimmed : trimmed ≠ [] := by
    -- The digits do not start with a zero, so they are not all zeros.
    rintro rfl
    cases z with
    | zero => exact hne rfl
    | succ z => exact hhead rfl
  refine ⟨htrimmed, ?_, .inl ?_, fun negative => ?_⟩
  · exact Text.isDigits_ofChars.mpr fun d hd => hdigits d (List.mem_append_left _ hd)
  · obtain ⟨d, ds, rfl⟩ := List.exists_cons_of_ne_nil htrimmed
    exact hhead
  · -- The zeros that are cut off are powers of ten.
    rw [Text.ofChars_append, Json.digitsValue_append, Json.digitsValue_zeros,
      Text.length_ofChars, List.length_replicate, Nat.add_zero] at hvalue
    rw [← ofDecimal_of_holdsDecimal negative hm hholds, ← hvalue,
      ← Double.ofDecimal_mul_pow_ten negative _ _ z]
    congr 1
    simp only [List.length_append, List.length_replicate]
    omega

/-- The shortest digits of a magnitude. -/
theorem isSpelled_shortest (m : Magnitude) : m.IsSpelled m.shortest := by
  unfold shortest
  split
  · rename_i hm
    have hzero : m = .zero := by
      have hexponent : m.exponent = 0 := m.normal.resolve_right (by omega)
      cases m
      simp_all [zero]
    rw [hzero]
    exact isSpelled_zero
  · rename_i hm
    exact isSpelled_of_holdsDecimal hm (holdsDecimal_shortestFrom hm 1 17 rfl (by decide))

end Magnitude

end Schematic
