/-
ExponentialHistogram.Proofs.Binary64.Value — the exact value of a double,
and what the normalized shape and rounding up do to it.

A finite double is a whole number of units of `2 ^ -1074`. From this one
reading everything about the format follows:

* the order of the positive doubles is the order of their bits
  (`units_lt_units_iff`), so a double is determined by its value;
* bringing a double into the normalized shape keeps the value
  (`value_normalized`), and normalized numbers are ordered by exponent
  first (`Normalized.value_le_value_iff`);
* `ceil` and its clamped form are adjoint to the embedding of the doubles:
  the result is below a double exactly when the number is
  (`Normalized.ceilPositive_le_iff`). That two roundings in a row are one
  rounding is a consequence of this.
-/
import Mathlib
import ExponentialHistogram.Mapping.Basic

namespace ExponentialHistogram

/-- So many digits are enough for the numbers below a power of two, and for no others. -/
theorem bitLength_le_iff {n width : ℕ} : bitLength n ≤ width ↔ n < 2 ^ width := by
  rcases Nat.eq_zero_or_pos n with rfl | hpos
  · simp [bitLength]
  · rw [bitLength, if_neg hpos.ne', Nat.succ_le_iff, Nat.log2_lt hpos.ne']

/-- A number shifted until its leading one is the top bit of the width. -/
theorem shift_leading_one {n width : Nat} (hpos : 0 < n) (h : n < 2 ^ width) :
    bitLength n ≤ width ∧ 2 ^ width ≤ 2 * (n * 2 ^ (width - bitLength n)) ∧
      n * 2 ^ (width - bitLength n) < 2 ^ width := by
  have hne : n ≠ 0 := by omega
  have hlog : n.log2 < width := (Nat.log2_lt hne).mpr h
  have hlow : 2 ^ n.log2 ≤ n := Nat.log2_self_le hne
  have hhigh : n < 2 ^ (n.log2 + 1) := Nat.lt_log2_self
  have hlen : bitLength n = n.log2 + 1 := by simp [bitLength, hne]
  have hwidth : 2 ^ width = 2 ^ (n.log2 + 1) * 2 ^ (width - bitLength n) := by
    rw [← Nat.pow_add]
    congr 1
    omega
  refine ⟨by omega, ?_, ?_⟩
  · rw [hwidth, ← Nat.mul_assoc]
    exact Nat.mul_le_mul_right _ (by rw [Nat.pow_succ]; omega)
  · rw [hwidth]
    exact Nat.mul_lt_mul_of_pos_right hhigh (Nat.two_pow_pos _)

namespace Binary64

/-! ## Kinds of doubles -/

def isZero (x : Binary64) : Bool := x.exponentField == 0 && x.significand == 0

/-- A set sign bit, on a number. Negative zero and minus infinity are negative. -/
def isNegative (x : Binary64) : Bool := x.signField == 1 && !x.isNaN

def isInfinite (x : Binary64) : Bool :=
  x.exponentField == specialExponentField && x.significand == 0

/-- The positive finite doubles lie between zero and infinity in the order of the bits. -/
theorem isPositiveFinite_iff (x : Binary64) :
    x.isPositiveFinite = true ↔ 0 < x.bits.toNat ∧ x.bits.toNat < 2047 * 2 ^ 52 := by
  have hlt : x.bits.toNat < 2 ^ 64 := x.bits.toNat_lt
  have hzero : x.bits = 0 ↔ x.bits.toNat = 0 := by
    rw [← UInt64.toNat_inj]; rfl
  simp only [isPositiveFinite, signField, exponentField, specialExponentField,
    Bool.and_eq_true, beq_iff_eq, bne_iff_ne, ne_eq, hzero]
  omega

/-- Every double is positive and finite or of one of the four other kinds. -/
theorem isPositiveFinite_eq_false_iff (x : Binary64) :
    x.isPositiveFinite = false ↔
      x.isZero = true ∨ x.isNegative = true ∨ x.isInfinite = true ∨ x.isNaN = true := by
  have hlt : x.bits.toNat < 2 ^ 64 := x.bits.toNat_lt
  rw [← Bool.not_eq_true, isPositiveFinite_iff]
  simp only [isZero, isNegative, isInfinite, isNaN, signField, exponentField, significand,
    specialExponentField, Bool.and_eq_true, Bool.not_eq_true', Bool.and_eq_false_iff,
    beq_iff_eq, bne_iff_ne, ne_eq, beq_eq_false_iff_ne, bne_eq_false_iff_eq]
  omega

/-! ## Units and value -/

theorem unitsPerOne_pos : 0 < unitsPerOne := by
  unfold unitsPerOne
  positivity

theorem unitsPerOne_cast_pos : (0 : ℚ) < unitsPerOne := Nat.cast_pos.mpr unitsPerOne_pos

/-- The exact value of a finite double. -/
def value (x : Binary64) : ℚ := (-1) ^ x.signField * x.units / unitsPerOne

theorem abs_value (x : Binary64) : |x.value| = x.units / unitsPerOne := by
  rw [value, abs_div, abs_mul, abs_neg_one_pow, one_mul, Nat.abs_cast, Nat.abs_cast]

theorem signField_eq_zero_or_one (x : Binary64) : x.signField = 0 ∨ x.signField = 1 := by
  have := x.bits.toNat_lt
  simp only [signField]
  omega

/-- The fields of a positive finite double are the quotient and the remainder of its bits. -/
theorem fields_of_isPositiveFinite {x : Binary64} (hx : x.isPositiveFinite = true) :
    x.signField = 0 ∧ x.exponentField = x.bits.toNat / 2 ^ 52 ∧ x.exponentField ≤ 2046 := by
  rw [isPositiveFinite_iff] at hx
  simp only [signField, exponentField]
  omega

theorem significand_lt (x : Binary64) : x.significand < 2 ^ 52 :=
  Nat.mod_lt _ (by decide)

theorem value_of_isPositiveFinite {x : Binary64} (hx : x.isPositiveFinite = true) :
    x.value = x.units * (2 : ℚ) ^ (-1074 : ℤ) := by
  have hone : (unitsPerOne : ℚ) = 2 ^ (1074 : ℤ) := by
    simp only [unitsPerOne, Nat.cast_pow, Nat.cast_ofNat, zpow_ofNat]
  rw [value, (fields_of_isPositiveFinite hx).1, pow_zero, one_mul, hone, zpow_neg,
    div_eq_mul_inv]

theorem value_mul_unitsPerOne {x : Binary64} (hx : x.isPositiveFinite = true) :
    x.value * unitsPerOne = x.units := by
  rw [value, (fields_of_isPositiveFinite hx).1, pow_zero, one_mul,
    div_mul_cancel₀ _ unitsPerOne_cast_pos.ne']

theorem units_lt (x : Binary64) : x.units < 2 ^ 52 * 2 ^ x.exponentField := by
  have hsig := x.significand_lt
  unfold units
  split
  · rename_i hexp
    rw [hexp]; omega
  · rename_i hexp
    calc (2 ^ 52 + x.significand) * 2 ^ (x.exponentField - 1)
        < 2 ^ 53 * 2 ^ (x.exponentField - 1) :=
          Nat.mul_lt_mul_of_pos_right (by omega) (Nat.two_pow_pos _)
      _ = 2 ^ 52 * 2 ^ x.exponentField := by
          rw [← Nat.pow_add, ← Nat.pow_add]; congr 1; omega

theorem le_units {x : Binary64} {e : Nat} (he : e < x.exponentField) :
    2 ^ 52 * 2 ^ e ≤ x.units := by
  rw [units, if_neg (by omega)]
  exact Nat.mul_le_mul (by omega) (Nat.pow_le_pow_right (by decide) (by omega))

theorem units_lt_of_bits_lt {x y : Binary64} (hx : x.isPositiveFinite = true)
    (hy : y.isPositiveFinite = true) (h : x.bits.toNat < y.bits.toNat) : x.units < y.units := by
  obtain ⟨_, hxe, _⟩ := fields_of_isPositiveFinite hx
  obtain ⟨_, hye, _⟩ := fields_of_isPositiveFinite hy
  rcases Nat.lt_or_ge x.exponentField y.exponentField with hlt | hge
  · exact Nat.lt_of_lt_of_le x.units_lt (le_units hlt)
  · have hexp : x.exponentField = y.exponentField := by omega
    have hsig : x.significand < y.significand := by
      simp only [significand]; omega
    rw [units, units, hexp]
    split
    · exact hsig
    · exact Nat.mul_lt_mul_of_pos_right (by omega) (Nat.two_pow_pos _)

/-- The order of the positive doubles is the order of their bits. -/
theorem units_lt_units_iff {x y : Binary64} (hx : x.isPositiveFinite = true)
    (hy : y.isPositiveFinite = true) : x.units < y.units ↔ x.bits.toNat < y.bits.toNat := by
  refine ⟨?_, units_lt_of_bits_lt hx hy⟩
  intro h
  rcases Nat.lt_trichotomy x.bits.toNat y.bits.toNat with hlt | heq | hgt
  · exact hlt
  · have : x = y := congrArg mk (UInt64.toNat_inj.mp heq)
    subst this; omega
  · have := units_lt_of_bits_lt hy hx hgt
    omega

theorem units_le_units_iff {x y : Binary64} (hx : x.isPositiveFinite = true)
    (hy : y.isPositiveFinite = true) : x.units ≤ y.units ↔ x.bits.toNat ≤ y.bits.toNat := by
  rw [← Nat.not_lt, ← Nat.not_lt, units_lt_units_iff hy hx]

theorem value_le_value_iff {x y : Binary64} (hx : x.isPositiveFinite = true)
    (hy : y.isPositiveFinite = true) : x.value ≤ y.value ↔ x.bits.toNat ≤ y.bits.toNat := by
  rw [value_of_isPositiveFinite hx, value_of_isPositiveFinite hy,
    mul_le_mul_iff_of_pos_right (by positivity), Nat.cast_le, units_le_units_iff hx hy]

/-- A positive double is determined by its value. -/
theorem eq_of_value_eq {x y : Binary64} (hx : x.isPositiveFinite = true)
    (hy : y.isPositiveFinite = true) (h : x.value = y.value) : x = y := by
  have hle := (value_le_value_iff hx hy).mp h.le
  have hge := (value_le_value_iff hy hx).mp h.ge
  exact congrArg mk (UInt64.toNat_inj.mp (by omega))

theorem value_pos {x : Binary64} (hx : x.isPositiveFinite = true) : 0 < x.value := by
  have hunits : 0 < x.units := by
    obtain ⟨_, hexp, _⟩ := fields_of_isPositiveFinite hx
    obtain ⟨hpos, _⟩ := (isPositiveFinite_iff x).mp hx
    unfold units
    split
    · simp only [significand]; omega
    · positivity
  rw [value_of_isPositiveFinite hx]
  positivity

theorem isPositiveFinite_minPositive : minPositive.isPositiveFinite = true := by decide

theorem isPositiveFinite_maxFinite : maxFinite.isPositiveFinite = true := by decide

theorem value_minPositive_le {x : Binary64} (hx : x.isPositiveFinite = true) :
    minPositive.value ≤ x.value := by
  rw [value_le_value_iff isPositiveFinite_minPositive hx]
  exact ((isPositiveFinite_iff x).mp hx).1

theorem value_le_maxFinite {x : Binary64} (hx : x.isPositiveFinite = true) :
    x.value ≤ maxFinite.value := by
  rw [value_le_value_iff hx isPositiveFinite_maxFinite]
  have hmax : maxFinite.bits.toNat = 2047 * 2 ^ 52 - 1 := by decide
  have := ((isPositiveFinite_iff x).mp hx).2
  omega

/-! ## Normalized numbers -/

namespace Normalized

/-- The value `2 ^ exponent * (1 + significand / 2 ^ 52)`. -/
def value (n : Normalized) : ℚ := 2 ^ n.exponent * (1 + n.significand / 2 ^ 52)

/-- The value as a whole number, on the grid of the number's binade. -/
theorem value_eq_mul (n : Normalized) :
    n.value = (2 ^ 52 + n.significand : ℕ) * (2 : ℚ) ^ (n.exponent - 52) := by
  rw [value, zpow_sub₀ (by norm_num)]
  push_cast
  norm_num
  ring

theorem two_zpow_le_value (n : Normalized) : (2 : ℚ) ^ n.exponent ≤ n.value := by
  unfold value
  exact le_mul_of_one_le_right (by positivity) (le_add_of_nonneg_right (by positivity))

theorem value_lt_two_zpow {n : Normalized} (hn : n.significand < 2 ^ 52) :
    n.value < (2 : ℚ) ^ (n.exponent + 1) := by
  have hfrac : (n.significand : ℚ) / 2 ^ 52 < 1 := by
    rw [div_lt_one (by positivity)]
    exact_mod_cast hn
  rw [value, zpow_add_one₀ (by norm_num)]
  exact mul_lt_mul_of_pos_left (by linarith) (by positivity)

theorem value_pos (n : Normalized) : 0 < n.value := by
  rw [value]; positivity

/-- A power of two is not above the number exactly if its exponent is not. -/
theorem two_zpow_le_value_iff {n : Normalized} (hn : n.significand < 2 ^ 52) (e : ℤ) :
    (2 : ℚ) ^ e ≤ n.value ↔ e ≤ n.exponent := by
  constructor
  · intro h
    have := (zpow_lt_zpow_iff_right₀ (by norm_num : (1 : ℚ) < 2)).mp
      (h.trans_lt (value_lt_two_zpow hn))
    omega
  · intro h
    exact (zpow_le_zpow_right₀ (by norm_num) h).trans n.two_zpow_le_value

/-- A number is a power of two exactly if its significand is zero. -/
theorem value_eq_two_zpow_iff {n : Normalized} (hn : n.significand < 2 ^ 52) {e : ℤ} :
    n.value = 2 ^ e ↔ n.significand = 0 ∧ e = n.exponent := by
  constructor
  · intro h
    have hle : e ≤ n.exponent := (two_zpow_le_value_iff hn e).mp h.ge
    have hge : n.exponent ≤ e :=
      (zpow_le_zpow_iff_right₀ (by norm_num)).mp (n.two_zpow_le_value.trans h.le)
    obtain rfl : e = n.exponent := le_antisymm hle hge
    have hfrac : (1 : ℚ) + n.significand / 2 ^ 52 = 1 :=
      (mul_eq_left₀ (zpow_ne_zero _ (by norm_num))).mp h
    simpa using hfrac
  · rintro ⟨hzero, rfl⟩
    simp [value, hzero]

/-- Normalized numbers are ordered by exponent, then by significand. -/
theorem value_le_value_iff {m n : Normalized} (hm : m.significand < 2 ^ 52)
    (hn : n.significand < 2 ^ 52) :
    m.value ≤ n.value ↔
      m.exponent < n.exponent ∨ m.exponent = n.exponent ∧ m.significand ≤ n.significand := by
  rcases lt_trichotomy m.exponent n.exponent with hlt | heq | hgt
  · have : m.value ≤ n.value :=
      (value_lt_two_zpow hm).le.trans ((two_zpow_le_value_iff hn _).mpr (by omega))
    simp [this, hlt]
  · have hpos : (0 : ℚ) < 2 ^ (n.exponent - 52) := by positivity
    rw [value_eq_mul, value_eq_mul, heq, mul_le_mul_iff_of_pos_right hpos, Nat.cast_le]
    omega
  · have : ¬ m.value ≤ n.value := fun h =>
      absurd ((two_zpow_le_value_iff hn _).mp (m.two_zpow_le_value.trans h)) (by omega)
    simp [this, hgt.le, hgt.ne']

end Normalized

/-! ## The normalized shape of a double -/

theorem normalized_significand_lt (x : Binary64) : x.normalized.significand < 2 ^ 52 := by
  unfold normalized
  split
  · exact Nat.mod_lt _ (by decide)
  · exact x.significand_lt

/-- The exponents of the positive doubles. -/
theorem normalized_exponent_mem {x : Binary64} (hx : x.isPositiveFinite = true) :
    minSubnormalExponent ≤ x.normalized.exponent ∧ x.normalized.exponent ≤ maxNormalExponent := by
  obtain ⟨_, hexp, hle⟩ := fields_of_isPositiveFinite hx
  obtain ⟨hpos, _⟩ := (isPositiveFinite_iff x).mp hx
  unfold normalized
  split
  · have hsig : 0 < x.significand := by simp only [significand]; omega
    have hlen : 0 < bitLength x.significand := by simp [bitLength, hsig.ne']
    simp only [minSubnormalExponent, maxNormalExponent, minNormalExponent]
    omega
  · simp only [minSubnormalExponent, maxNormalExponent, exponentBias]
    omega

/-- Normalizing keeps the value. -/
theorem value_normalized {x : Binary64} (hx : x.isPositiveFinite = true) :
    x.normalized.value = x.value := by
  obtain ⟨_, hexp, hle⟩ := fields_of_isPositiveFinite hx
  obtain ⟨hpos, _⟩ := (isPositiveFinite_iff x).mp hx
  rw [value_of_isPositiveFinite hx, Normalized.value_eq_mul, normalized, units]
  split
  · have hsig : 0 < x.significand := by simp only [significand]; omega
    obtain ⟨hlen, hlow, hhigh⟩ :=
      shift_leading_one hsig (x.significand_lt.trans (by decide : 2 ^ 52 < 2 ^ 53))
    have hmod : 2 ^ 52 + x.significand * 2 ^ (53 - bitLength x.significand) % 2 ^ 52
        = x.significand * 2 ^ (53 - bitLength x.significand) := by omega
    simp only [hmod, minNormalExponent]
    rw [Nat.cast_mul, Nat.cast_pow, mul_assoc, ← zpow_natCast, Nat.cast_ofNat,
      ← zpow_add₀ (by norm_num)]
    congr 2
    omega
  · rw [Nat.cast_mul, Nat.cast_pow, mul_assoc, ← zpow_natCast ((2 : ℕ) : ℚ), Nat.cast_ofNat,
      ← zpow_add₀ (by norm_num)]
    congr 2
    simp only [exponentBias]
    omega

/-! ## Rounding up -/

theorem toNat_ofBitsNat {n : Nat} (h : n < 2 ^ 64) : (ofBitsNat n).bits.toNat = n := by
  simp only [ofBitsNat, UInt64.toNat_ofNat']
  exact Nat.mod_eq_of_lt h

/-- Up to the first normal binade the bits count the units. -/
theorem units_of_bits_le {x : Binary64} (h : x.bits.toNat ≤ 2 ^ 52) : x.units = x.bits.toNat := by
  rcases Nat.lt_or_ge x.bits.toNat (2 ^ 52) with hlt | hge
  · have hexp : x.exponentField = 0 := by simp only [exponentField]; omega
    rw [units, if_pos hexp]
    exact Nat.mod_eq_of_lt hlt
  · have hexp : x.exponentField = 1 := by simp only [exponentField]; omega
    have hsig : x.significand = 0 := by simp only [significand]; omega
    rw [units, hexp, hsig]
    simp
    omega

namespace Normalized

/-- From the smallest normal number on, a normalized number is a double. -/
theorem ceil_of_normal {n : Normalized} (hn : n.significand < 2 ^ 52)
    (hlow : minNormalExponent ≤ n.exponent) (hhigh : n.exponent ≤ maxNormalExponent) :
    n.ceil.isPositiveFinite = true ∧ n.ceil.value = n.value := by
  simp only [minNormalExponent, maxNormalExponent] at hlow hhigh
  obtain ⟨e, he⟩ : ∃ e : ℕ, n.exponent + 1023 = e := ⟨(n.exponent + 1023).toNat, by omega⟩
  have hbits : n.ceil.bits.toNat = e * 2 ^ 52 + n.significand := by
    rw [ceil, if_pos (show minNormalExponent ≤ n.exponent from hlow), exponentBias,
      Nat.cast_ofNat, he, Int.toNat_natCast]
    exact toNat_ofBitsNat (by omega)
  have hfin : n.ceil.isPositiveFinite = true := by
    rw [isPositiveFinite_iff]; omega
  refine ⟨hfin, ?_⟩
  have hexp : n.ceil.exponentField = e := by simp only [exponentField]; omega
  have hsig : n.ceil.significand = n.significand := by simp only [Binary64.significand]; omega
  rw [value_of_isPositiveFinite hfin, units, if_neg (by omega), hexp, hsig, value_eq_mul,
    Nat.cast_mul, Nat.cast_pow, mul_assoc, ← zpow_natCast ((2 : ℕ) : ℚ), Nat.cast_ofNat,
    ← zpow_add₀ (by norm_num)]
  congr 2
  omega

/-- Below the normal numbers, rounding up is division by the number of dropped places. -/
theorem ceil_of_subnormal {n : Normalized} (hn : n.significand < 2 ^ 52) {shift : ℕ}
    (hshift : n.exponent + shift = minNormalExponent) (hpos : 0 < shift) (hle : shift ≤ 52) :
    n.ceil.isPositiveFinite = true ∧
      n.ceil.units = (2 ^ 52 + n.significand + 2 ^ shift - 1) / 2 ^ shift := by
  have htwo : 2 ≤ 2 ^ shift := Nat.pow_le_pow_right (by decide : 0 < 2) hpos
  have hdvd : 2 ^ shift ≤ 2 ^ 52 := Nat.pow_le_pow_right (by decide) hle
  have hlow : 0 < (2 ^ 52 + n.significand + 2 ^ shift - 1) / 2 ^ shift :=
    Nat.div_pos (by omega) (by omega)
  have hhigh : (2 ^ 52 + n.significand + 2 ^ shift - 1) / 2 ^ shift ≤ 2 ^ 52 := by
    rw [← Nat.lt_succ_iff, Nat.div_lt_iff_lt_mul (by omega)]
    omega
  have hbits : n.ceil.bits.toNat = (2 ^ 52 + n.significand + 2 ^ shift - 1) / 2 ^ shift := by
    rw [ceil, if_neg (by omega), show (minNormalExponent - n.exponent).toNat = shift by omega]
    exact toNat_ofBitsNat (by omega)
  refine ⟨?_, ?_⟩
  · rw [isPositiveFinite_iff]; omega
  · rw [units_of_bits_le (by omega), hbits]

/-- A normalized number against a double, counted in units of `2 ^ -1074`. -/
theorem value_le_value_iff_units {n : Normalized} {shift : ℕ}
    (hshift : n.exponent + shift = minNormalExponent) {x : Binary64}
    (hx : x.isPositiveFinite = true) :
    n.value ≤ x.value ↔ 2 ^ 52 + n.significand ≤ x.units * 2 ^ shift := by
  have hunit : (2 : ℚ) ^ (-1074 : ℤ) = 2 ^ shift * 2 ^ (n.exponent - 52) := by
    rw [← zpow_natCast, ← zpow_add₀ (by norm_num)]
    congr 1
    simp only [minNormalExponent] at hshift
    omega
  rw [value_of_isPositiveFinite hx, value_eq_mul, hunit, ← mul_assoc,
    mul_le_mul_iff_of_pos_right (by positivity)]
  exact_mod_cast Iff.rfl

/-- **Rounding up is adjoint to being a double**: the rounded number is not above a double
exactly if the number is not. -/
theorem ceil_le_iff {n : Normalized} (hn : n.significand < 2 ^ 52)
    (hlow : minSubnormalExponent ≤ n.exponent) (hhigh : n.exponent ≤ maxNormalExponent) :
    n.ceil.isPositiveFinite = true ∧
      ∀ x : Binary64, x.isPositiveFinite = true → (n.ceil.value ≤ x.value ↔ n.value ≤ x.value) := by
  by_cases hnormal : minNormalExponent ≤ n.exponent
  · obtain ⟨hfin, hvalue⟩ := ceil_of_normal hn hnormal hhigh
    exact ⟨hfin, fun x _ => by rw [hvalue]⟩
  · obtain ⟨shift, hshift⟩ : ∃ shift : ℕ, n.exponent + shift = minNormalExponent :=
      ⟨(minNormalExponent - n.exponent).toNat, by omega⟩
    have hle : shift ≤ 52 := by
      simp only [minSubnormalExponent, minNormalExponent] at hlow hshift; omega
    obtain ⟨hfin, hunits⟩ := ceil_of_subnormal hn hshift (by omega) hle
    refine ⟨hfin, ?_⟩
    intro x hx
    have htwo : 0 < 2 ^ shift := Nat.two_pow_pos _
    rw [value_le_value_iff_units hshift hx, value_of_isPositiveFinite hfin,
      value_of_isPositiveFinite hx, mul_le_mul_iff_of_pos_right (by positivity), Nat.cast_le,
      hunits, ← Nat.lt_succ_iff, Nat.div_lt_iff_lt_mul htwo, Nat.succ_mul]
    omega

/-- The same with the clamp at the smallest double, for exponents below those of all doubles. -/
theorem ceilPositive_le_iff {n : Normalized} (hn : n.significand < 2 ^ 52)
    (hhigh : n.exponent ≤ maxNormalExponent) :
    n.ceilPositive.isPositiveFinite = true ∧
      ∀ x : Binary64, x.isPositiveFinite = true →
        (n.ceilPositive.value ≤ x.value ↔ n.value ≤ x.value) := by
  unfold ceilPositive
  split
  · rename_i hbelow
    refine ⟨isPositiveFinite_minPositive, ?_⟩
    intro x hx
    have hxe := (normalized_exponent_mem hx).1
    have hsmall : n.value ≤ x.value := by
      rw [← value_normalized hx, value_le_value_iff hn x.normalized_significand_lt]
      exact Or.inl (by omega)
    exact iff_of_true (value_minPositive_le hx) hsmall
  · exact ceil_le_iff hn (by omega) hhigh

end Normalized

end Binary64

end ExponentialHistogram
