/-
ExponentialHistogram.Proofs.Threshold.WideFloat — squaring encloses.

The two words of a square are the exact square, and splitting it into kept and
dropped bits loses nothing (`splitSquare_value`). So rounding down stays below
the square and rounding up above it, both keep the top bit set, and an enclosure
of a number becomes one of its power (`Encloses.squareTimes`).

Values are rational: the exponents of candidates are negative.
-/
import Mathlib
import ExponentialHistogram.Proofs.Binary64.Value
import ExponentialHistogram.Proofs.Threshold.SquareWords

namespace ExponentialHistogram.Threshold

namespace WideFloat

/-! ## Value and shape -/

/-- The top bit of the significand is set. -/
def IsNormalized (w : WideFloat) : Prop := w.significand.msb = true

theorem isNormalized_iff (w : WideFloat) : w.IsNormalized ↔ 2 ^ 127 ≤ w.significand.toNat := by
  simp [IsNormalized, BitVec.msb_eq_decide]

/-- The number `significand * 2 ^ exponent`. -/
def value (w : WideFloat) : ℚ := w.significand.toNat * 2 ^ w.exponent

theorem two_zpow_le_value {w : WideFloat} (hw : w.IsNormalized) :
    (2 : ℚ) ^ (w.exponent + 127) ≤ w.value := by
  have hsig : ((2 ^ 127 : ℕ) : ℚ) ≤ w.significand.toNat := Nat.cast_le.mpr (w.isNormalized_iff.mp hw)
  rw [add_comm, zpow_add₀ (by norm_num), value]
  exact mul_le_mul_of_nonneg_right (by exact_mod_cast hsig) (by positivity)

theorem value_lt_two_zpow (w : WideFloat) : w.value < (2 : ℚ) ^ (w.exponent + 128) := by
  have hsig : (w.significand.toNat : ℚ) < ((2 ^ 128 : ℕ) : ℚ) := Nat.cast_lt.mpr w.significand.isLt
  rw [add_comm, zpow_add₀ (by norm_num), value]
  exact mul_lt_mul_of_pos_right (by exact_mod_cast hsig) (by positivity)

theorem value_pos {w : WideFloat} (hw : w.IsNormalized) : 0 < w.value :=
  lt_of_lt_of_le (by positivity) (two_zpow_le_value hw)

/-- The significand of `ofNat`, without the reduction to 128 bits. -/
theorem ofNat_significand {n : Nat} (hpos : 0 < n) (h : n < 2 ^ 128) :
    (ofNat n).significand.toNat = n * 2 ^ (128 - bitLength n) ∧
      2 ^ 127 ≤ n * 2 ^ (128 - bitLength n) := by
  obtain ⟨-, hlow, hhigh⟩ := shift_leading_one hpos h
  simp only [ofNat, BitVec.toNat_shiftLeft, BitVec.toNat_ofNat, Nat.shiftLeft_eq,
    Nat.mod_eq_of_lt h]
  exact ⟨Nat.mod_eq_of_lt hhigh, by omega⟩

theorem isNormalized_ofNat {n : Nat} (hpos : 0 < n) (h : n < 2 ^ 128) : (ofNat n).IsNormalized := by
  obtain ⟨hsig, hle⟩ := ofNat_significand hpos h
  rw [isNormalized_iff, hsig]
  exact hle

theorem value_ofNat {n : Nat} (hpos : 0 < n) (h : n < 2 ^ 128) : (ofNat n).value = n := by
  rw [value, (ofNat_significand hpos h).1]
  simp only [ofNat]
  rw [Nat.cast_mul, Nat.cast_pow, Nat.cast_ofNat, mul_assoc, ← zpow_natCast,
    ← zpow_add₀ (by norm_num), add_neg_cancel, zpow_zero, mul_one]

/-! ## Squares -/

/-- Moving a double word one place to the left, when the place is free. -/
theorem doubleWord_shift {high : BitVec 128} (h : high.msb = false) (low : BitVec 128) :
    (high <<< 1 ||| low >>> 127).toNat * 2 ^ 128 + (low <<< 1).toNat
      = 2 * (high.toNat * 2 ^ 128 + low.toNat) := by
  have hhigh : high.toNat < 2 ^ 127 := by
    simpa [BitVec.msb_eq_decide] using h
  have hlow := low.isLt
  have hcarry : low.toNat / 2 ^ 127 < 2 ^ 1 := by omega
  have hkept : (high <<< 1 ||| low >>> 127).toNat = high.toNat * 2 + low.toNat / 2 ^ 127 := by
    rw [BitVec.toNat_or, BitVec.toNat_shiftLeft, BitVec.toNat_ushiftRight,
      Nat.shiftRight_eq_div_pow, Nat.mod_eq_of_lt (by rw [Nat.shiftLeft_eq]; omega),
      ← Nat.shiftLeft_add_eq_or_of_lt hcarry, Nat.shiftLeft_eq, Nat.pow_one]
  rw [hkept, BitVec.toNat_shiftLeft, Nat.shiftLeft_eq]
  omega

/-- **Splitting a square loses nothing**: kept and dropped bits together are the square, counted in
the last place of the dropped bits. -/
theorem splitSquare_value {w : WideFloat} (hw : w.IsNormalized) :
    w.splitSquare.1.IsNormalized ∧
      ((w.splitSquare.1.significand.toNat * 2 ^ 128 + w.splitSquare.2.toNat : ℕ) : ℚ)
        * 2 ^ (w.splitSquare.1.exponent - 128) = w.value ^ 2 := by
  have hwords := squareWords_toNat w.significand
  have hsquare : (2 ^ 127) ^ 2 ≤ w.significand.toNat ^ 2 :=
    Nat.pow_le_pow_left (w.isNormalized_iff.mp hw) 2
  have hvalue : w.value ^ 2 = (w.significand.toNat ^ 2 : ℕ) * 2 ^ (2 * w.exponent) := by
    rw [value, mul_pow, ← zpow_natCast (2 ^ w.exponent), ← zpow_mul, mul_comm w.exponent,
      Nat.cast_pow, Nat.cast_ofNat]
  rw [splitSquare, hvalue]
  generalize squareWords w.significand = words at hwords ⊢
  obtain ⟨high, low⟩ := words
  simp only at hwords
  have hlow := low.isLt
  by_cases hmsb : high.msb = true
  · simp only [hmsb, if_true]
    refine ⟨hmsb, ?_⟩
    rw [hwords]
    congr 2
    omega
  · have hshift := doubleWord_shift (Bool.not_eq_true _ ▸ hmsb) low
    have hdropped := (low <<< 1).isLt
    simp only [hmsb]
    refine ⟨?_, ?_⟩
    · rw [isNormalized_iff]
      simp only [Bool.false_eq_true, if_false]
      omega
    · simp only [Bool.false_eq_true, if_false]
      rw [hshift, hwords, Nat.cast_mul, Nat.cast_ofNat, mul_comm (2 : ℚ), mul_assoc,
        ← zpow_one_add₀ (by norm_num)]
      congr 2
      omega

/-- The square of a number with 64 bits fits: nothing is dropped. -/
theorem splitSquare_ofNat {n : Nat} (hpos : 0 < n) (h : n < 2 ^ 64) : (ofNat n).splitSquare.2 = 0 := by
  have hwords := squareWords_toNat (ofNat n).significand
  have hlow := (squareWords (ofNat n).significand).2.isLt
  have hdvd : 2 ^ 128 ∣ (ofNat n).significand.toNat ^ 2 := by
    have hlen : 64 + (64 - bitLength n) = 128 - bitLength n := by
      have := (shift_leading_one hpos h).1
      omega
    rw [(ofNat_significand hpos (by omega)).1, ← hlen, Nat.pow_add]
    exact ⟨(n * 2 ^ (64 - bitLength n)) ^ 2, by ring⟩
  have hzero : (squareWords (ofNat n).significand).2 = 0 := by
    rw [← hwords, Nat.dvd_add_right (Nat.dvd_mul_left _ _)] at hdvd
    exact BitVec.eq_of_toNat_eq (Nat.eq_zero_of_dvd_of_lt hdvd hlow)
  unfold splitSquare
  simp only [hzero]
  split
  · rfl
  · rfl

theorem isNormalized_squareDown {w : WideFloat} (hw : w.IsNormalized) :
    w.squareDown.IsNormalized :=
  (splitSquare_value hw).1

/-- The exact square, as the kept number and a part of its last place. -/
theorem value_sq_eq {w : WideFloat} (hw : w.IsNormalized) :
    w.value ^ 2 = w.squareDown.value
      + w.splitSquare.2.toNat * 2 ^ (w.squareDown.exponent - 128) := by
  rw [← (splitSquare_value hw).2, value, squareDown, Nat.cast_add, Nat.cast_mul, add_mul,
    Nat.cast_pow, Nat.cast_ofNat, mul_assoc, ← zpow_natCast, ← zpow_add₀ (by norm_num)]
  congr 3
  omega

theorem squareDown_le {w : WideFloat} (hw : w.IsNormalized) :
    w.squareDown.value ≤ w.value ^ 2 := by
  rw [value_sq_eq hw]
  exact le_add_of_nonneg_right (by positivity)

/-- The next number is one unit of the last place above, also where it carries. -/
theorem value_next (w : WideFloat) :
    w.next.value = (w.significand.toNat + 1) * 2 ^ w.exponent := by
  unfold next
  split
  · rename_i hones
    have hcarry : (1#128 <<< 127).toNat = 2 ^ 127 := by decide
    have hmax : (BitVec.allOnes 128).toNat + 1 = 2 * 2 ^ 127 := by decide
    rw [value, hones, ← Nat.cast_add_one, hmax, hcarry, zpow_add_one₀ (by norm_num)]
    push_cast
    ring
  · rename_i hones
    have hlt : w.significand.toNat + 1 < 2 ^ 128 := by
      have hmax : (BitVec.allOnes 128).toNat = 2 ^ 128 - 1 := by decide
      have hne : w.significand.toNat ≠ (BitVec.allOnes 128).toNat :=
        fun h => hones (BitVec.eq_of_toNat_eq h)
      have := w.significand.isLt
      omega
    rw [value, BitVec.toNat_add, show (1 : BitVec 128).toNat = 1 from rfl, Nat.mod_eq_of_lt hlt,
      Nat.cast_add_one]

theorem isNormalized_next {w : WideFloat} (hw : w.IsNormalized) : w.next.IsNormalized := by
  have hlow := w.isNormalized_iff.mp hw
  rw [isNormalized_iff, next]
  split
  · exact (by decide : 2 ^ 127 ≤ (1#128 <<< 127).toNat)
  · rename_i hones
    have hmax : (BitVec.allOnes 128).toNat = 2 ^ 128 - 1 := by decide
    have hne : w.significand.toNat ≠ (BitVec.allOnes 128).toNat :=
      fun h => hones (BitVec.eq_of_toNat_eq h)
    have := w.significand.isLt
    rw [BitVec.toNat_add, show (1 : BitVec 128).toNat = 1 from rfl]
    omega

theorem squareUp_eq (w : WideFloat) :
    w.squareUp = if w.splitSquare.2 = 0 then w.squareDown else w.squareDown.next := rfl

theorem isNormalized_squareUp {w : WideFloat} (hw : w.IsNormalized) : w.squareUp.IsNormalized := by
  rw [squareUp_eq]
  split
  · exact isNormalized_squareDown hw
  · exact isNormalized_next (isNormalized_squareDown hw)

theorem le_squareUp {w : WideFloat} (hw : w.IsNormalized) : w.value ^ 2 ≤ w.squareUp.value := by
  rw [value_sq_eq hw, squareUp_eq]
  split
  · rename_i hzero
    simp [hzero]
  · have hdropped : (w.splitSquare.2.toNat : ℚ) ≤ ((2 ^ 128 : ℕ) : ℚ) :=
      Nat.cast_le.mpr w.splitSquare.2.isLt.le
    have hplace : (2 : ℚ) ^ w.squareDown.exponent
        = ((2 ^ 128 : ℕ) : ℚ) * 2 ^ (w.squareDown.exponent - 128) := by
      rw [Nat.cast_pow, Nat.cast_ofNat, ← zpow_natCast, ← zpow_add₀ (by norm_num)]
      congr 1
      omega
    rw [value_next, value, add_one_mul, hplace]
    gcongr

end WideFloat

/-! ## Enclosures -/

namespace Enclosure

/-- The number lies between normalized bounds. -/
structure Encloses (e : Enclosure) (x : ℚ) : Prop where
  lower_normalized : e.lower.IsNormalized
  upper_normalized : e.upper.IsNormalized
  lower_le : e.lower.value ≤ x
  le_upper : x ≤ e.upper.value

theorem encloses_exact {w : WideFloat} (hw : w.IsNormalized) : (exact w).Encloses w.value :=
  ⟨hw, hw, le_rfl, le_rfl⟩

/-- One squaring. -/
theorem Encloses.square {e : Enclosure} {x : ℚ} (h : e.Encloses x) : e.square.Encloses (x ^ 2) where
  lower_normalized := WideFloat.isNormalized_squareDown h.lower_normalized
  upper_normalized := WideFloat.isNormalized_squareUp h.upper_normalized
  lower_le := (WideFloat.squareDown_le h.lower_normalized).trans
    (pow_le_pow_left₀ (WideFloat.value_pos h.lower_normalized).le h.lower_le 2)
  le_upper := (pow_le_pow_left₀
    ((WideFloat.value_pos h.lower_normalized).le.trans h.lower_le) h.le_upper 2).trans
    (WideFloat.le_squareUp h.upper_normalized)

/-- A run of squarings. -/
theorem Encloses.squareTimes {e : Enclosure} {x : ℚ} (n : ℕ) (h : e.Encloses x) :
    (Enclosure.squareTimes n e).Encloses (x ^ 2 ^ n) := by
  induction n generalizing e x with
  | zero => simpa [Enclosure.squareTimes] using h
  | succ n ih =>
    have hstep := ih h.square
    rwa [← pow_mul, ← Nat.pow_succ'] at hstep

end Enclosure

end ExponentialHistogram.Threshold
