/-
ExponentialHistogram.Proofs.Binary64.Accumulation — roundings one after the
other.

A rounding multiplies or divides a number by little more than one. Counting such
factors takes no notice of which number was rounded (`Within`): products and
quotients add up the counts of their operands, a sum has the larger one, and
each operation in double precision adds one for itself (`Within.roundedMul` and
its companions). So a chain of operations is as far off as its count says.

The numbers have to keep away from both ends of the range of doubles, which zero
does by being exact (`IsModerate`).
-/
import Mathlib
import ExponentialHistogram.Proofs.Binary64.Rounding

namespace ExponentialHistogram.Binary64

/-- What one rounding multiplies or divides a number by, at most. -/
def roundingFactor : ℚ := 2 ^ 53 / (2 ^ 53 - 1)

theorem one_le_roundingFactor : 1 ≤ roundingFactor := by
  norm_num [roundingFactor]

theorem roundingFactor_pow_pos (n : ℕ) : 0 < roundingFactor ^ n :=
  pow_pos (zero_lt_one.trans_le one_le_roundingFactor) n

/-- Two numbers that are not further apart than a number of roundings can carry them. -/
structure Within (n : ℕ) (x y : ℚ) : Prop where
  left_nonneg : 0 ≤ x
  right_nonneg : 0 ≤ y
  left_le : x ≤ y * roundingFactor ^ n
  right_le : y ≤ x * roundingFactor ^ n

namespace Within

variable {m n : ℕ} {x y z a b : ℚ}

theorem refl (h : 0 ≤ x) : Within 0 x x :=
  ⟨h, h, by rw [pow_zero, mul_one], by rw [pow_zero, mul_one]⟩

theorem mono (h : Within m x y) (hmn : m ≤ n) : Within n x y := by
  have hpow := pow_le_pow_right₀ one_le_roundingFactor hmn
  exact ⟨h.left_nonneg, h.right_nonneg,
    h.left_le.trans (mul_le_mul_of_nonneg_left hpow h.right_nonneg),
    h.right_le.trans (mul_le_mul_of_nonneg_left hpow h.left_nonneg)⟩

/-- One bound of two numbers in a row; the other one is the same, read backwards. -/
theorem le_of_le_of_le (h : x ≤ y * roundingFactor ^ m) (h' : y ≤ z * roundingFactor ^ n) :
    x ≤ z * roundingFactor ^ (m + n) := by
  calc x ≤ y * roundingFactor ^ m := h
    _ ≤ z * roundingFactor ^ n * roundingFactor ^ m :=
        mul_le_mul_of_nonneg_right h' (roundingFactor_pow_pos m).le
    _ = z * roundingFactor ^ (m + n) := by rw [mul_assoc, ← pow_add, add_comm n]

theorem trans (h : Within m x y) (h' : Within n y z) : Within (m + n) x z := by
  refine ⟨h.left_nonneg, h'.right_nonneg, le_of_le_of_le h.left_le h'.left_le, ?_⟩
  rw [add_comm]
  exact le_of_le_of_le h'.right_le h.right_le

/-! ## Operations -/

theorem mul (h : Within m x a) (h' : Within n y b) : Within (m + n) (x * y) (a * b) where
  left_nonneg := mul_nonneg h.left_nonneg h'.left_nonneg
  right_nonneg := mul_nonneg h.right_nonneg h'.right_nonneg
  left_le := by
    rw [pow_add, mul_mul_mul_comm]
    exact mul_le_mul h.left_le h'.left_le h'.left_nonneg
      (mul_nonneg h.right_nonneg (roundingFactor_pow_pos m).le)
  right_le := by
    rw [pow_add, mul_mul_mul_comm]
    exact mul_le_mul h.right_le h'.right_le h'.right_nonneg
      (mul_nonneg h.left_nonneg (roundingFactor_pow_pos m).le)

/-- Only zero is near zero. -/
theorem pos_iff (h : Within n x y) : 0 < x ↔ 0 < y := by
  have hpow := roundingFactor_pow_pos n
  constructor
  · intro hx
    exact pos_of_mul_pos_left (hx.trans_le h.left_le) hpow.le
  · intro hy
    exact pos_of_mul_pos_left (hy.trans_le h.right_le) hpow.le

theorem div (h : Within m x a) (h' : Within n y b) (hb : 0 < b) :
    Within (m + n) (x / y) (a / b) := by
  have hy := h'.pos_iff.mpr hb
  have hinv : Within n y⁻¹ b⁻¹ := by
    refine ⟨inv_nonneg.mpr hy.le, inv_nonneg.mpr hb.le, ?_, ?_⟩
    · rw [← div_eq_inv_mul, inv_eq_one_div, div_le_div_iff₀ hy hb, one_mul, mul_comm]
      exact h'.right_le
    · rw [← div_eq_inv_mul, inv_eq_one_div, div_le_div_iff₀ hb hy, one_mul, mul_comm]
      exact h'.left_le
  rw [div_eq_mul_inv, div_eq_mul_inv]
  exact h.mul hinv

theorem add (h : Within n x a) (h' : Within n y b) : Within n (x + y) (a + b) where
  left_nonneg := add_nonneg h.left_nonneg h'.left_nonneg
  right_nonneg := add_nonneg h.right_nonneg h'.right_nonneg
  left_le := by
    rw [add_mul]
    exact add_le_add h.left_le h'.left_le
  right_le := by
    rw [add_mul]
    exact add_le_add h.right_le h'.right_le

end Within

/-! ## One rounding -/

/-- Zero, or a number that no rounding brings near the ends of the range of doubles. -/
def IsModerate (y : ℚ) : Prop := y = 0 ∨ 1 / 2 ^ 200 ≤ y ∧ y ≤ 2 ^ 200

theorem unitsPerOne_cast : (unitsPerOne : ℚ) = 2 ^ 1074 := by
  simp only [unitsPerOne, Nat.cast_pow, Nat.cast_ofNat]

theorem units_nearestUnits_zero (den : ℕ) : (nearestUnits 0 den).units = 0 := by
  rw [units_nearestUnits rfl (by simp [bitLength])]
  simp [roundHalfEven]

/-- Above the subnormal numbers a rounding is a relative error. -/
theorem within_units_nearestUnits {num den : ℕ} (hden : 0 < den)
    (hlow : (2 : ℚ) ^ 52 ≤ num / den) (hhigh : (num : ℚ) / den < 2 ^ 2097) :
    Within 1 (nearestUnits num den).units (num / den) := by
  have hrange : num / den < 2 ^ 2097 := by
    rw [← @Nat.cast_lt ℚ]
    refine Nat.cast_div_le.trans_lt ?_
    simpa only [Nat.cast_pow, Nat.cast_ofNat] using hhigh
  have herror := abs_units_nearestUnits_sub_le num hden hrange
  rw [max_eq_right (by rw [div_le_div_iff₀ two_pos (by positivity)]; linarith)] at herror
  generalize (num : ℚ) / den = q at *
  obtain ⟨hbelow, habove⟩ := abs_le.mp herror
  have hfactor : roundingFactor * (1 - 1 / 2 ^ 53) = 1 := by norm_num [roundingFactor]
  have hfactor' : 1 + 1 / 2 ^ 53 ≤ roundingFactor := by norm_num [roundingFactor]
  have hq : 0 < q := by linarith
  have hunits : q * (1 - 1 / 2 ^ 53) ≤ ((nearestUnits num den).units : ℚ) := by linarith
  refine ⟨Nat.cast_nonneg _, hq.le, ?_, ?_⟩
  · calc ((nearestUnits num den).units : ℚ) ≤ q * (1 + 1 / 2 ^ 53) := by linarith
      _ ≤ q * roundingFactor ^ 1 := by rw [pow_one]; gcongr
  · calc q = q * (1 - 1 / 2 ^ 53) * roundingFactor := by rw [mul_assoc, mul_comm _ roundingFactor,
            hfactor, mul_one]
      _ ≤ (nearestUnits num den).units * roundingFactor ^ 1 := by
          rw [pow_one]
          exact mul_le_mul_of_nonneg_right hunits (zero_le_one.trans one_le_roundingFactor)

variable {m n : ℕ} {x y : Binary64} {a b : ℚ}

/-- **A rounding counts for one**, if not too many have gone before. -/
theorem within_nearestUnits {num den : ℕ} (hden : 0 < den)
    (h : Within n ((num : ℚ) / den / unitsPerOne) a) (hn : n ≤ 8) (ha : IsModerate a) :
    Within (n + 1) |(nearestUnits num den).value| a := by
  have hone := unitsPerOne_cast_pos
  rw [abs_value, add_comm]
  rcases ha with rfl | ⟨hlow, hhigh⟩
  · have hzero : num = 0 := by
      have hnot := mt h.pos_iff.mp (lt_irrefl 0)
      by_contra hne
      have hnum : (0 : ℚ) < num := Nat.cast_pos.mpr (Nat.pos_of_ne_zero hne)
      exact hnot (div_pos (div_pos hnum (Nat.cast_pos.mpr hden)) hone)
    rw [hzero, units_nearestUnits_zero, Nat.cast_zero, zero_div]
    exact (Within.refl le_rfl).mono (Nat.zero_le _)
  · have hpow : roundingFactor ^ n ≤ 2 :=
      (pow_le_pow_right₀ one_le_roundingFactor hn).trans (by norm_num [roundingFactor])
    have hbelow : 1 / 2 ^ 201 ≤ (num : ℚ) / den / unitsPerOne := by
      have hhalf := h.right_le.trans (mul_le_mul_of_nonneg_left hpow h.left_nonneg)
      linarith
    have habove : (num : ℚ) / den / unitsPerOne ≤ 2 ^ 201 := by
      calc (num : ℚ) / den / unitsPerOne ≤ a * 2 :=
            h.left_le.trans (mul_le_mul_of_nonneg_left hpow h.right_nonneg)
        _ ≤ 2 ^ 200 * 2 := by gcongr
        _ = 2 ^ 201 := by norm_num
    rw [le_div_iff₀ hone, unitsPerOne_cast] at hbelow
    rw [div_le_iff₀ hone, unitsPerOne_cast] at habove
    have hlarge : (2 : ℚ) ^ 52 ≤ 1 / 2 ^ 201 * 2 ^ 1074 := by
      rw [one_div_mul_eq_div, le_div_iff₀ (by positivity), ← pow_add]
      exact pow_le_pow_right₀ one_le_two (by decide)
    have hfinite : (2 : ℚ) ^ 201 * 2 ^ 1074 < 2 ^ 2097 := by
      rw [← pow_add]
      exact pow_lt_pow_right₀ one_lt_two (by decide)
    have hrounded :=
      within_units_nearestUnits hden (hlarge.trans hbelow) (habove.trans_lt hfinite)
    exact (hrounded.div (.refl hone.le) hone).trans h

namespace Within

theorem roundedNat (n : ℕ) (hn : n < 2 ^ 200) : Within 1 |(ofNat n).value| n := by
  refine within_nearestUnits (n := 0) Nat.one_pos ?_ (Nat.zero_le _) ?_
  · rw [Nat.cast_mul, Nat.cast_one, div_one, mul_div_cancel_right₀ _ unitsPerOne_cast_pos.ne']
    exact .refl (Nat.cast_nonneg n)
  · rcases Nat.eq_zero_or_pos n with rfl | hpos
    · exact Or.inl Nat.cast_zero
    · refine Or.inr ⟨?_, by exact_mod_cast hn.le⟩
      calc (1 / 2 ^ 200 : ℚ) ≤ 1 := by norm_num
        _ ≤ n := by exact_mod_cast hpos

/-- Whole numbers of 53 bits are doubles. -/
theorem exactNat (n : ℕ) (hn : n < 2 ^ 53) : Within 0 |(ofNat n).value| n := by
  obtain ⟨places, hone, hplaces⟩ : ∃ places, unitsPerOne = 2 ^ places ∧ places = 1074 :=
    ⟨1074, rfl, rfl⟩
  obtain ⟨shift, hshift⟩ : ∃ shift, shift = bitLength (n * unitsPerOne / 1) - 53 := ⟨_, rfl⟩
  have hrange : n * unitsPerOne < 2 ^ (53 + places) := by
    rw [hone, Nat.pow_add]
    exact Nat.mul_lt_mul_of_pos_right hn (Nat.two_pow_pos places)
  have hle : shift ≤ places := by
    have := bitLength_le_iff.mpr hrange
    rw [Nat.div_one] at hshift
    omega
  have hgrid : n * unitsPerOne = n * 2 ^ (places - shift) * 2 ^ shift := by
    rw [mul_assoc, ← Nat.pow_add, Nat.sub_add_cancel hle, hone]
  have hunits : (ofNat n).units = n * unitsPerOne := by
    rw [ofNat, ofRatio, units_nearestUnits hshift (by omega), hgrid, one_mul,
      roundHalfEven_mul_self _ (Nat.two_pow_pos _)]
  rw [abs_value, hunits, Nat.cast_mul, mul_div_cancel_right₀ _ unitsPerOne_cast_pos.ne']
  exact .refl (Nat.cast_nonneg n)

theorem roundedMul (hx : Within m |x.value| a) (hy : Within n |y.value| b) (hmn : m + n ≤ 8)
    (hab : IsModerate (a * b)) : Within (m + n + 1) |(x.mul y).value| (a * b) := by
  refine within_nearestUnits unitsPerOne_pos ?_ hmn hab
  have hproduct := hx.mul hy
  rw [abs_value, abs_value, div_mul_div_comm, ← div_div] at hproduct
  exact_mod_cast hproduct

theorem roundedDiv (hx : Within m |x.value| a) (hy : Within n |y.value| b) (hmn : m + n ≤ 8)
    (hb : 0 < b) (hab : IsModerate (a / b)) : Within (m + n + 1) |(x.div y).value| (a / b) := by
  have hone := unitsPerOne_cast_pos
  have hpos : 0 < y.units := by
    have h := hy.pos_iff.mpr hb
    rw [abs_value, div_pos_iff_of_pos_right hone] at h
    exact_mod_cast h
  rw [Binary64.div, if_neg hpos.ne']
  refine within_nearestUnits hpos ?_ hmn hab
  have hquotient := hx.div hy hb
  rw [abs_value, abs_value, div_div_div_cancel_right₀ hone.ne'] at hquotient
  rwa [Nat.cast_mul, div_right_comm, mul_div_cancel_right₀ _ hone.ne']

theorem roundedAdd (hx : Within n |x.value| a) (hy : Within n |y.value| b) (hn : n ≤ 8)
    (hab : IsModerate (a + b)) : Within (n + 1) |(x.add y).value| (a + b) := by
  refine within_nearestUnits Nat.one_pos ?_ hn hab
  have hsum := hx.add hy
  rw [abs_value, abs_value, ← add_div] at hsum
  rwa [Nat.cast_add, Nat.cast_one, div_one]

end Within

end ExponentialHistogram.Binary64
