/-
ExponentialHistogram.Proofs.Binary64.Rounding — how far rounding moves a number.

One function does all the rounding, so one bound is enough: the double nearest to
a fraction is half a unit of `2 ^ -1074` away from it, or one part in `2 ^ 53`,
whichever is more (`abs_units_nearestUnits_sub_le`). Two facts lie behind it. A
quotient is rounded to an integer with an error of one half
(`roundHalfEven_bounds`), and the bits that `nearestUnits` puts together are those
of that multiple of the grid (`units_multiple`).
-/
import Mathlib
import ExponentialHistogram.Proofs.Binary64.Grid
import ExponentialHistogram.Binary64.Rounding

namespace ExponentialHistogram

theorem roundHalfEven_bounds (num : ℕ) {den : ℕ} (hden : 0 < den) :
    2 * num ≤ 2 * (roundHalfEven num den * den) + den ∧
      2 * (roundHalfEven num den * den) ≤ 2 * num + den := by
  have hsplit := Nat.div_add_mod' num den
  have hrest := Nat.mod_lt num hden
  have hupper : (num / den + 1) * den = num / den * den + den := Nat.succ_mul ..
  unfold roundHalfEven
  simp only
  split
  · omega
  · split
    · omega
    · -- A tie, which either neighbour is as near to.
      rcases Nat.mod_two_eq_zero_or_one (num / den) with heven | hodd
      · rw [heven, Nat.add_zero]
        omega
      · rw [hodd]
        omega

/-- Rounding does not leave the bounds that the quotient keeps. -/
theorem roundHalfEven_mem (num den : ℕ) :
    num / den ≤ roundHalfEven num den ∧ roundHalfEven num den ≤ num / den + 1 := by
  unfold roundHalfEven
  simp only
  split
  · omega
  · split <;> omega

/-- Without the places beyond `width + 1` a number has at most that many, and exactly that many if it
had more. -/
theorem div_excess_bounds {n excess : ℕ} (width : ℕ) (hexcess : excess = bitLength n - (width + 1)) :
    n / 2 ^ excess < 2 ^ (width + 1) ∧ (0 < excess → 2 ^ width ≤ n / 2 ^ excess) := by
  constructor
  · rw [Nat.div_lt_iff_lt_mul (Nat.two_pow_pos _), ← Nat.pow_add, ← bitLength_le_iff]
    omega
  · intro hpos
    rw [Nat.le_div_iff_mul_le (Nat.two_pow_pos _), ← Nat.pow_add, ← Nat.not_lt, ← bitLength_le_iff]
    omega

/-- A whole quotient is not rounded. -/
theorem roundHalfEven_mul_self (n : ℕ) {den : ℕ} (hden : 0 < den) :
    roundHalfEven (n * den) den = n := by
  unfold roundHalfEven
  simp [hden, Nat.mul_div_cancel n hden]

namespace Binary64

/-- What the bits of a rounded fraction say: a multiple of the grid of its binade. -/
theorem units_nearestUnits {num den shift : ℕ} (hshift : shift = bitLength (num / den) - 53)
    (hplaces : shift ≤ 2044) :
    (nearestUnits num den).units = roundHalfEven num (den * 2 ^ shift) * 2 ^ shift := by
  obtain ⟨multiple, hmultiple⟩ : ∃ multiple, multiple = roundHalfEven num (den * 2 ^ shift) :=
    ⟨_, rfl⟩
  obtain ⟨hquotient, hexcess⟩ := div_excess_bounds 52 hshift
  rw [Nat.div_div_eq_div_mul] at hquotient hexcess
  obtain ⟨hmem, hmem'⟩ := roundHalfEven_mem num (den * 2 ^ shift)
  rw [← hmultiple] at hmem hmem' ⊢
  have hbits : shift * 2 ^ 52 + multiple < infinity.bits.toNat := by
    rw [toNat_infinity]
    omega
  rw [← units_multiple (fun h => (hexcess h).trans hmem) (by omega) (by omega)]
  unfold nearestUnits
  simp only [← hshift, ← hmultiple, hbits, if_true]

/-- **Rounding is off by half a unit or by one part in `2 ^ 53`**, as long as the fraction lies below
`2 ^ 1023`. -/
theorem abs_units_nearestUnits_sub_le (num : ℕ) {den : ℕ} (hden : 0 < den)
    (hrange : (num / den : ℕ) < 2 ^ 2097) :
    |((nearestUnits num den).units : ℚ) - num / den| ≤ max (1 / 2) ((num : ℚ) / den / 2 ^ 53) := by
  obtain ⟨shift, hshift⟩ : ∃ shift, shift = bitLength (num / den) - 53 := ⟨_, rfl⟩
  obtain ⟨-, hexcess⟩ := div_excess_bounds 52 hshift
  rw [Nat.div_div_eq_div_mul] at hexcess
  have hpos : (0 : ℚ) < den := Nat.cast_pos.mpr hden
  have hgrid : |((roundHalfEven num (den * 2 ^ shift) * 2 ^ shift : ℕ) : ℚ) - num / den|
      ≤ 2 ^ shift / 2 := by
    obtain ⟨hlow, hhigh⟩ := roundHalfEven_bounds num (Nat.mul_pos hden (Nat.two_pow_pos shift))
    rw [← @Nat.cast_le ℚ] at hlow hhigh
    push_cast at hlow hhigh ⊢
    rw [abs_le, neg_le_sub_iff_le_add, sub_le_iff_le_add, div_le_iff₀ hpos, ← sub_le_iff_le_add',
      le_div_iff₀ hpos]
    constructor <;> linarith
  have hplaces : shift ≤ 2044 := by
    have := bitLength_le_iff.mpr hrange
    omega
  rw [units_nearestUnits hshift hplaces]
  refine hgrid.trans ?_
  rcases Nat.eq_zero_or_pos shift with rfl | hpositive
  · exact le_max_of_le_left (by norm_num)
  · have hbinade := (Nat.le_div_iff_mul_le (Nat.mul_pos hden (Nat.two_pow_pos shift))).mp
      (hexcess hpositive)
    rw [← @Nat.cast_le ℚ] at hbinade
    push_cast at hbinade
    refine le_max_of_le_right ?_
    rw [div_div, le_div_iff₀ (by positivity)]
    linarith

/-- Up to one, doubles are at most `2 ^ -53` away from what they are rounded from. -/
theorem abs_units_nearestUnits_sub_le_of_le_one {num den : ℕ} (hden : 0 < den)
    (hone : num ≤ unitsPerOne * den) :
    |((nearestUnits num den).units : ℚ) - num / den| ≤ (unitsPerOne : ℚ) / 2 ^ 53 := by
  have hpos : (0 : ℚ) < den := Nat.cast_pos.mpr hden
  have hquotient : (num : ℚ) / den ≤ unitsPerOne := by
    rw [div_le_iff₀ hpos]
    exact_mod_cast hone
  have hlarge : (2 : ℚ) ^ 53 ≤ unitsPerOne := by
    simp only [unitsPerOne, Nat.cast_pow, Nat.cast_ofNat]
    exact pow_le_pow_right₀ one_le_two (by decide)
  have hrange : num / den < 2 ^ 2097 := by
    rw [← @Nat.cast_lt ℚ]
    refine (Nat.cast_div_le.trans hquotient).trans_lt ?_
    simp only [unitsPerOne, Nat.cast_pow, Nat.cast_ofNat]
    exact pow_lt_pow_right₀ one_lt_two (by decide)
  refine (abs_units_nearestUnits_sub_le num hden hrange).trans (max_le ?_ ?_)
  · rw [div_le_div_iff₀ (by norm_num) (by positivity)]
    linarith
  · exact div_le_div_of_nonneg_right hquotient (by positivity)

end Binary64

end ExponentialHistogram
