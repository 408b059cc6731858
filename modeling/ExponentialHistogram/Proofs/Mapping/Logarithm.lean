/-
ExponentialHistogram.Proofs.Mapping.Logarithm — an estimated logarithm gives
the exact position.

The position of a significand is the whole part of its scaled logarithm
(`le_scaledLog_iff`). An estimate that is off by a billionth has the same
whole part unless an integer is near, and then it is off by one at most.
Near means a millionth, and the test is made in double precision; three
roundings leave room for the error on both sides
(`Binary64.fract_mem_of_isNearInteger_eq_false`). So estimates without an
integer nearby are right as they are, and the others are off by what
settling repairs (`settle_eq`). The result is the position
in either case (`positionOfEstimate_eq`): below zero, where the estimate
counts as zero, and from the end of the table on, where it is cut off, it
is off by one at most as well.
-/
import Mathlib
import ExponentialHistogram.Proofs.Binary64.Rounding
import ExponentialHistogram.Proofs.Mapping.Start
import ExponentialHistogram.Proofs.Threshold.Search
import ExponentialHistogram.Mapping.Logarithm

namespace ExponentialHistogram

/-! ## Reading an estimate -/

namespace Binary64

/-- The whole part rounds down and counts a negative number as zero. -/
theorem wholePart_eq (x : Binary64) : x.wholePart = ⌊x.value⌋.toNat := by
  rw [Int.floor_toNat, wholePart, value]
  rcases x.signField_eq_zero_or_one with hsign | hsign
  · rw [if_pos hsign, hsign, pow_zero, one_mul, Nat.floor_div_eq_div]
  · have hnonpos : (-1 : ℚ) ^ 1 * x.units / unitsPerOne ≤ 0 := by
      rw [pow_one, neg_one_mul, neg_div]
      exact neg_nonpos.mpr (div_nonneg (Nat.cast_nonneg _) (Nat.cast_nonneg _))
    rw [if_neg (by omega), hsign, Nat.floor_of_nonpos hnonpos]

theorem fractionUnits_eq (x : Binary64) :
    (x.fractionUnits : ℚ) = Int.fract x.value * unitsPerOne := by
  have hone : (unitsPerOne : ℚ) ≠ 0 := unitsPerOne_cast_pos.ne'
  have hfract : Int.fract ((x.units : ℚ) / unitsPerOne) = (x.units % unitsPerOne : ℕ) / unitsPerOne :=
    Int.fract_div_natCast_eq_div_natCast_mod
  rw [fractionUnits, value]
  rcases x.signField_eq_zero_or_one with hsign | hsign
  · simp only [hsign, if_true, pow_zero, one_mul]
    rw [hfract, div_mul_cancel₀ _ hone]
  · have hlt := Nat.mod_lt x.units unitsPerOne_pos
    simp only [hsign, one_ne_zero, if_false, pow_one, neg_one_mul, neg_div]
    by_cases hzero : x.units % unitsPerOne = 0
    · rw [hzero, Nat.cast_zero, zero_div] at hfract
      rw [Int.fract_neg_eq_zero.mpr hfract, hzero, Nat.sub_zero, Nat.mod_self, Nat.cast_zero,
        zero_mul]
    · have hne : Int.fract ((x.units : ℚ) / unitsPerOne) ≠ 0 := by
        rw [hfract]
        exact div_ne_zero (Nat.cast_ne_zero.mpr hzero) hone
      rw [Int.fract_neg hne, hfract, Nat.mod_eq_of_lt (by omega), Nat.cast_sub hlt.le, sub_mul,
        one_mul, div_mul_cancel₀ _ hone]

/-! The distance from the next integer and both its bounds are rounded once. -/

theorem abs_units_margin_sub_le :
    |(margin.units : ℚ) - (unitsPerOne : ℚ) / 10 ^ 6| ≤ (unitsPerOne : ℚ) / 2 ^ 53 := by
  have h := abs_units_nearestUnits_sub_le_of_le_one (show 0 < 10 ^ 6 by decide)
    (show unitsPerOne ≤ unitsPerOne * 10 ^ 6 by omega)
  rw [Nat.cast_pow, Nat.cast_ofNat] at h
  rwa [margin, ofRatio, one_mul]

theorem abs_units_oneLessMargin_sub_le :
    |(oneLessMargin.units : ℚ) - (unitsPerOne - margin.units)| ≤ (unitsPerOne : ℚ) / 2 ^ 53 := by
  have hmargin : margin.units ≤ unitsPerOne := by
    have hone := unitsPerOne_cast_pos
    have := (abs_le.mp abs_units_margin_sub_le).2
    rw [← @Nat.cast_le ℚ]
    linarith
  have h := abs_units_nearestUnits_sub_le_of_le_one Nat.one_pos
    (show unitsPerOne - margin.units ≤ unitsPerOne * 1 by omega)
  rwa [Nat.cast_one, div_one, Nat.cast_sub hmargin] at h

theorem abs_units_offset_sub_le (x : Binary64) :
    |(x.offset.units : ℚ) - Int.fract x.value * unitsPerOne| ≤ (unitsPerOne : ℚ) / 2 ^ 53 := by
  have hlt : x.fractionUnits ≤ unitsPerOne := by
    have hone := unitsPerOne_cast_pos
    rw [← @Nat.cast_le ℚ, fractionUnits_eq]
    exact mul_le_of_le_one_left hone.le (Int.fract_lt_one _).le
  have h := abs_units_nearestUnits_sub_le_of_le_one Nat.one_pos
    (show x.fractionUnits ≤ unitsPerOne * 1 by omega)
  rwa [Nat.cast_one, div_one, fractionUnits_eq] at h

/-- Three roundings leave of the margin more than the error of an estimate. -/
theorem fract_mem_of_isNearInteger_eq_false {x : Binary64} (h : x.isNearInteger = false) :
    1 / 10 ^ 9 ≤ Int.fract x.value ∧ Int.fract x.value < 1 - 1 / 10 ^ 9 := by
  have hone := unitsPerOne_cast_pos
  obtain ⟨hoffset, hoffset'⟩ := abs_le.mp x.abs_units_offset_sub_le
  obtain ⟨hmargin, -⟩ := abs_le.mp abs_units_margin_sub_le
  obtain ⟨-, hless⟩ := abs_le.mp abs_units_oneLessMargin_sub_le
  rw [isNearInteger, Bool.or_eq_false_iff, decide_eq_false_iff_not, decide_eq_false_iff_not,
    Nat.not_lt, Nat.not_lt, ← @Nat.cast_le ℚ, ← @Nat.cast_le ℚ] at h
  obtain ⟨hlow, hhigh⟩ := h
  constructor
  · refine le_of_mul_le_mul_right ?_ hone
    linarith
  · refine lt_of_mul_lt_mul_right ?_ hone.le
    linarith

end Binary64

namespace Logarithm

open Threshold (Attains IsLastAttained IsThreshold attains? attains?_eq WalkDecided)

variable {scale significand position : ℕ}

/-- The logarithm lies between a position and the next one exactly where the position is the last one
attained. -/
theorem scaledLog_bounds (h : IsLastAttained (2 ^ 52 + significand) scale position)
    (hsignificand : significand < 2 ^ 52) :
    (position : ℝ) ≤ scaledLog scale significand ∧ scaledLog scale significand < position + 1 := by
  refine ⟨(le_scaledLog_iff _ _ _).mpr h.attains, ?_⟩
  have hnot := h.not_attains_succ (by omega)
  rw [← le_scaledLog_iff, Nat.cast_add_one] at hnot
  exact not_le.mp hnot

/-- The whole part of the logarithm is the last position that is attained. -/
theorem isLastAttained_floor (scale : ℕ) (hsignificand : significand < 2 ^ 52) :
    IsLastAttained (2 ^ 52 + significand) scale ⌊scaledLog scale significand⌋₊ where
  lt := by
    have hlt := scaledLog_lt scale hsignificand
    rw [Nat.floor_lt (scaledLog_nonneg scale significand)]
    exact_mod_cast hlt
  le_iff k _ := by
    rw [Nat.le_floor_iff (scaledLog_nonneg scale significand), le_scaledLog_iff]

/-! ## Settling -/

/-- No comparison that settling makes is left open. -/
def SettleDecided (scale significand guess : ℕ) : Prop :=
  (0 < guess → attains? (2 ^ 52 + significand) scale guess ≠ none) ∧
    (guess < lastPosition scale → attains? (2 ^ 52 + significand) scale guess ≠ some false →
      attains? (2 ^ 52 + significand) scale (guess + 1) ≠ none)

/-- Where a comparison is made, it tells whether the position has been passed. -/
theorem attains?_eq_le (hscale : scale ≤ 20) (hsignificand : significand < 2 ^ 52)
    (h : IsLastAttained (2 ^ 52 + significand) scale position) {k : ℕ} (hk : k < 2 ^ scale)
    (hdecided : attains? (2 ^ 52 + significand) scale k ≠ none) :
    attains? (2 ^ 52 + significand) scale k = some (decide (k ≤ position)) := by
  have htable : 2 ^ scale ≤ 2 ^ 20 := Nat.pow_le_pow_right (by decide) hscale
  rw [attains?_eq (by omega) (by omega) (Threshold.target_lt hscale (by omega)) hdecided]
  simp only [h.le_iff k hk]

/-- **Settling repairs a guess that is at most one off.** -/
theorem settle_eq (hscale : scale ≤ 20) (hsignificand : significand < 2 ^ 52)
    (h : IsLastAttained (2 ^ 52 + significand) scale position) {guess : ℕ}
    (hguess : guess ≤ lastPosition scale) (hup : guess ≤ position + 1)
    (hdown : position ≤ guess + 1) (hdecided : SettleDecided scale significand guess) :
    settle scale significand guess = position := by
  have hlast := h.lt
  obtain ⟨hhere, hnext⟩ := hdecided
  unfold lastPosition at hguess hnext
  have hverdict : ∀ k, k < 2 ^ scale → attains? (2 ^ 52 + significand) scale k ≠ none →
      attains? (2 ^ 52 + significand) scale k = some (decide (k ≤ position)) := by
    intro k
    exact attains?_eq_le hscale hsignificand h
  unfold settle lastPosition
  by_cases habove : guess = position + 1
  · have hfalse := hverdict guess (by omega) (hhere (by omega))
    simp only [habove, Nat.not_succ_le_self, decide_false] at hfalse
    simp [habove, hfalse]
  · have hreached : attains? (2 ^ 52 + significand) scale guess ≠ some false := by
      intro hfalse
      have := hverdict guess (by omega) (by simp [hfalse])
      simp only [hfalse, Option.some.injEq, false_eq_decide_iff] at this
      omega
    simp only [hreached, and_false, if_false]
    by_cases hbelow : position = guess + 1
    · have htrue := hverdict (guess + 1) (by omega) (hnext (by omega) hreached)
      simp only [hbelow, le_rfl, decide_true] at htrue
      rw [if_pos ⟨by omega, htrue⟩, hbelow]
    · rw [if_neg]
      · omega
      · rintro ⟨hlt, htrue⟩
        have := hverdict (guess + 1) (by omega) (by simp [htrue])
        simp only [htrue, Option.some.injEq, true_eq_decide_iff] at this
        omega

/-! ## From an estimate to the position -/

/-- The guess that is read off an estimate. -/
def guess (scale : ℕ) (estimate : Binary64) : ℕ := min estimate.wholePart (lastPosition scale)

section Estimate

variable {estimate : Binary64} (hsignificand : significand < 2 ^ 52)
  (h : IsLastAttained (2 ^ 52 + significand) scale position)
  (herror : |(estimate.value : ℝ) - scaledLog scale significand| ≤ 1 / 10 ^ 9)
include hsignificand h herror

/-- The estimate is off by a billionth, so rounding it down is off by one at most. -/
theorem floor_near : ⌊estimate.value⌋ ≤ position + 1 ∧ (position : ℤ) ≤ ⌊estimate.value⌋ + 1 := by
  obtain ⟨hlow, hhigh⟩ := scaledLog_bounds h hsignificand
  obtain ⟨herrlow, herrhigh⟩ := abs_le.mp herror
  have hfloor : ((⌊estimate.value⌋ : ℤ) : ℝ) ≤ estimate.value := by
    exact_mod_cast Int.floor_le estimate.value
  have hceil : (estimate.value : ℝ) < ((⌊estimate.value⌋ : ℤ) : ℝ) + 1 := by
    exact_mod_cast Int.lt_floor_add_one estimate.value
  constructor
  · have hlt : ((⌊estimate.value⌋ : ℤ) : ℝ) < ((position + 2 : ℤ) : ℝ) := by
      push_cast
      linarith
    have := Int.cast_lt.mp hlt
    omega
  · have hlt : ((position : ℤ) : ℝ) < ((⌊estimate.value⌋ + 2 : ℤ) : ℝ) := by
      push_cast
      linarith
    have := Int.cast_lt.mp hlt
    omega

/-- With no integer within the error rounding down gives the position itself. -/
theorem floor_eq (hfar : 1 / 10 ^ 9 ≤ Int.fract estimate.value)
    (hfar' : Int.fract estimate.value < 1 - 1 / 10 ^ 9) : ⌊estimate.value⌋ = position := by
  obtain ⟨hlow, hhigh⟩ := scaledLog_bounds h hsignificand
  obtain ⟨herrlow, herrhigh⟩ := abs_le.mp herror
  unfold Int.fract at hfar hfar'
  have habove : (((⌊estimate.value⌋ : ℤ) + 1 / 10 ^ 9 : ℚ) : ℝ) ≤ estimate.value :=
    Rat.cast_le.mpr (by linarith)
  have hbelow : (estimate.value : ℝ) < (((⌊estimate.value⌋ : ℤ) + (1 - 1 / 10 ^ 9) : ℚ) : ℝ) :=
    Rat.cast_lt.mpr (by linarith)
  push_cast at habove hbelow
  have hle : ((⌊estimate.value⌋ : ℤ) : ℝ) < ((position + 1 : ℤ) : ℝ) := by
    push_cast
    linarith
  have hge : ((position : ℤ) : ℝ) < ((⌊estimate.value⌋ + 1 : ℤ) : ℝ) := by
    push_cast
    linarith
  have := Int.cast_lt.mp hle
  have := Int.cast_lt.mp hge
  omega

/-- Whatever decides that an integer is near, the result is right if it never says no to an integer
within the error. -/
theorem settle_of_near_eq (hscale : scale ≤ 20) (near : Bool)
    (hfar : near = false →
      1 / 10 ^ 9 ≤ Int.fract estimate.value ∧ Int.fract estimate.value < 1 - 1 / 10 ^ 9)
    (hdecided : near = true → SettleDecided scale significand (guess scale estimate)) :
    (if near then settle scale significand (guess scale estimate) else guess scale estimate)
      = position := by
  have hlast : position ≤ lastPosition scale := by
    have := h.lt
    unfold lastPosition
    omega
  have hwhole := Binary64.wholePart_eq estimate
  cases near with
  | false =>
    have hfloor := floor_eq hsignificand h herror (hfar rfl).1 (hfar rfl).2
    rw [if_neg Bool.false_ne_true, guess, hwhole, hfloor, Int.toNat_natCast, min_eq_left hlast]
  | true =>
    obtain ⟨hup, hdown⟩ := floor_near hsignificand h herror
    rw [if_pos rfl]
    refine settle_eq hscale hsignificand h (min_le_right _ _) ?_ ?_ (hdecided rfl)
    · unfold guess
      omega
    · unfold guess
      omega

/-- **The position of an estimate is the last one attained**, whether or not it was settled. -/
theorem positionOfEstimate_eq (hscale : scale ≤ 20)
    (hdecided : estimate.isNearInteger = true →
      SettleDecided scale significand (guess scale estimate)) :
    positionOfEstimate scale significand estimate = position := by
  exact settle_of_near_eq hsignificand h herror hscale estimate.isNearInteger
    Binary64.fract_mem_of_isNearInteger_eq_false hdecided

end Estimate

/-! ## From an estimate to the threshold -/

/-- **The entry at a position is the threshold**, if the estimate is at most 64 off. -/
theorem entry_eq {estimates : Estimates} (hscale : scale ≤ 20) (hposition : position < 2 ^ scale)
    (hsignificand : significand < 2 ^ 52)
    (hthreshold : IsThreshold (2 ^ 52 + significand) scale position)
    (hup : significand ≤ estimates.byExp scale position % 2 ^ 52 + 64)
    (hdown : estimates.byExp scale position % 2 ^ 52 ≤ significand + 64)
    (hdecided : WalkDecided scale position (2 ^ 52 + estimates.byExp scale position % 2 ^ 52)
      (2 ^ 52 + significand)) :
    entry estimates scale position = significand := by
  have hseek := Threshold.seek?_complete hscale hposition (Nat.mod_lt _ (by decide)) hsignificand
    hthreshold hdecided hup hdown
  simp only [entry, hseek, Option.getD_some]

end Logarithm

end ExponentialHistogram
