/-
ExponentialHistogram.Proofs.Mapping.Settling — settling repairs what an estimate
gets wrong.

An estimate that is a billionth off is rounded down to the position or to one of
its neighbours, and it is settled unless every integer is at least a millionth
away. This is tested in double precision: a rounded distance is compared with
rounded bounds. The exact test (`Binary64.isNearIntegerExact`) may differ, but not
where the estimate can be wrong, so the position is the same.

Up to scale 20 no comparison is left open (`settleDecided`); nothing is assumed
about them here.
-/
import Mathlib
import ExponentialHistogram.Proofs.Mapping.Decision

namespace ExponentialHistogram

/-! ## The exact margin -/

namespace Binary64

/-- Whether an integer is less than a millionth away. -/
def isNearIntegerExact (x : Binary64) : Bool :=
  x.fractionUnits * 10 ^ 6 < unitsPerOne || (10 ^ 6 - 1) * unitsPerOne < x.fractionUnits * 10 ^ 6

/-- No integer is near exactly if the fraction keeps away from zero and from one. -/
theorem isNearIntegerExact_eq_false_iff (x : Binary64) :
    x.isNearIntegerExact = false ↔
      1 / 10 ^ 6 ≤ Int.fract x.value ∧ Int.fract x.value ≤ 1 - 1 / 10 ^ 6 := by
  have hone := unitsPerOne_cast_pos
  have hlow : unitsPerOne ≤ x.fractionUnits * 10 ^ 6 ↔ 1 / 10 ^ 6 ≤ Int.fract x.value := by
    rw [← @Nat.cast_le ℚ, Nat.cast_mul, fractionUnits_eq, div_le_iff₀ (by norm_num),
      mul_right_comm, le_mul_iff_one_le_left hone]
    norm_num
  have hhigh : x.fractionUnits * 10 ^ 6 ≤ (10 ^ 6 - 1) * unitsPerOne ↔
      Int.fract x.value ≤ 1 - 1 / 10 ^ 6 := by
    rw [← @Nat.cast_le ℚ, Nat.cast_mul, Nat.cast_mul, fractionUnits_eq, mul_right_comm,
      mul_le_mul_iff_of_pos_right hone, ← le_div_iff₀ (by norm_num)]
    norm_num
  rw [isNearIntegerExact, Bool.or_eq_false_iff, decide_eq_false_iff_not, decide_eq_false_iff_not,
    Nat.not_lt, Nat.not_lt, hlow, hhigh]

end Binary64

namespace Logarithm

open Threshold (Attains)

variable {scale significand : ℕ}

/-- The position of an estimate whose nearness to an integer is tested exactly. -/
def positionOfEstimateExact (scale significand : ℕ) (estimate : Binary64) : ℕ :=
  if estimate.isNearIntegerExact then settle scale significand (guess scale estimate)
  else guess scale estimate

/-- **Settling repairs a neighbour**, at both ends of the table as well, and with that every estimate
that is at most a billionth off: one below zero, one beyond the table, and one on the wrong side of
an integer. -/
theorem settle_repairs (hscale : scale ≤ 20) (hsignificand : significand < 2 ^ 52) :
    ∃ position, IsGreatest {k : ℕ | k < 2 ^ scale ∧
        2 ^ (52 * 2 ^ scale + k) ≤ (2 ^ 52 + significand) ^ 2 ^ scale} position ∧
      (∀ guess : ℕ, guess ≤ lastPosition scale → |(guess : ℤ) - position| ≤ 1 →
        settle scale significand guess = position) ∧
      ∀ estimate : Binary64,
        |(estimate.value : ℝ) - 2 ^ scale * Real.logb 2 (1 + significand / 2 ^ 52)| ≤ 1 / 10 ^ 9 →
          positionOfEstimate scale significand estimate = position ∧
            positionOfEstimateExact scale significand estimate = position := by
  have hlast := isLastAttained_floor scale hsignificand
  generalize ⌊scaledLog scale significand⌋₊ = position at hlast
  have hdecided : ∀ {guess}, guess ≤ lastPosition scale → SettleDecided scale significand guess :=
    settleDecided hscale hsignificand
  refine ⟨position, ⟨⟨hlast.lt, hlast.attains⟩, ?_⟩, ?_, ?_⟩
  · rintro k ⟨hk, hattains⟩
    exact (hlast.le_iff k hk).mpr hattains
  · intro guess hguess hnear
    obtain ⟨hlow, hhigh⟩ := abs_le.mp hnear
    exact settle_eq hscale hsignificand hlast hguess (by omega) (by omega) (hdecided hguess)
  · intro estimate herror
    have hguess : guess scale estimate ≤ lastPosition scale := min_le_right _ _
    constructor
    · exact positionOfEstimate_eq hsignificand hlast herror hscale fun _ => hdecided hguess
    · refine settle_of_near_eq hsignificand hlast herror hscale estimate.isNearIntegerExact
        (fun hfar => ?_) fun _ => hdecided hguess
      obtain ⟨hlow, hhigh⟩ := estimate.isNearIntegerExact_eq_false_iff.mp hfar
      constructor <;> linarith

/-- Just below two the logarithm is a full `2 ^ 20` but for a billionth. -/
theorem scaledLog_maxSignificand_near :
    |(2 : ℝ) ^ 20 - scaledLog 20 Binary64.maxSignificand| ≤ 1 / 10 ^ 9 := by
  have hlow : 1 - (1 - 1 / 2 ^ 53 : ℝ)⁻¹ ≤ Real.log (1 - 1 / 2 ^ 53) :=
    Real.one_sub_inv_le_log_of_pos (by norm_num)
  have hlog : Real.logb 2 (1 + (Binary64.maxSignificand : ℕ) / 2 ^ 52)
      = 1 + Real.log (1 - 1 / 2 ^ 53) / Real.log 2 := by
    rw [show (1 + (Binary64.maxSignificand : ℕ) / 2 ^ 52 : ℝ) = 2 * (1 - 1 / 2 ^ 53) by
      norm_num [Binary64.maxSignificand]]
    rw [Real.logb_mul (by norm_num) (by norm_num), Real.logb_self_eq_one (by norm_num), Real.logb]
  have htwo := Real.log_two_gt_d9
  have hquotient : -(2 / 10 ^ 16) ≤ Real.log (1 - 1 / 2 ^ 53) / Real.log 2 := by
    rw [le_div_iff₀ (by linarith)]
    norm_num at hlow ⊢
    linarith
  have hlt := scaledLog_lt 20 (by decide : Binary64.maxSignificand < 2 ^ 52)
  rw [scaledLog, hlog] at hlt ⊢
  rw [abs_le]
  constructor <;> linarith

/-- Both ends of the finest table: an estimate that has reached the next power of two, one below
zero, and guesses that settling has to lower and to raise. -/
theorem settle_repairs_ends :
    20 ≤ 20 ∧ Binary64.maxSignificand < 2 ^ 52 ∧
    settle 20 Binary64.maxSignificand (2 ^ 20 - 2) = 2 ^ 20 - 1 ∧
    settle 20 0 1 = 0 ∧
    positionOfEstimateExact 20 Binary64.maxSignificand ⟨0x4130000000000000⟩ = 2 ^ 20 - 1 ∧
    positionOfEstimate 20 0 ⟨0xBDD0000000000000⟩ = 0 := by
  have hupper : |((⟨0x4130000000000000⟩ : Binary64).value : ℝ)
      - 2 ^ 20 * Real.logb 2 (1 + (Binary64.maxSignificand : ℕ) / 2 ^ 52)| ≤ 1 / 10 ^ 9 := by
    have hvalue : (⟨0x4130000000000000⟩ : Binary64).value = 2 ^ 20 := by
      rw [← Binary64.value_normalized (by decide),
        show (⟨0x4130000000000000⟩ : Binary64).normalized = ⟨20, 0⟩ by decide]
      norm_num [Binary64.Normalized.value]
    rw [hvalue, Rat.cast_pow, Rat.cast_ofNat]
    exact scaledLog_maxSignificand_near
  have hlower : |((⟨0xBDD0000000000000⟩ : Binary64).value : ℝ)
      - 2 ^ 20 * Real.logb 2 (1 + (0 : ℕ) / 2 ^ 52)| ≤ 1 / 10 ^ 9 := by
    rw [Nat.cast_zero, zero_div, add_zero, Real.logb_one, mul_zero, sub_zero, ← Rat.cast_abs,
      Binary64.abs_value]
    have hunits : (⟨0xBDD0000000000000⟩ : Binary64).units * 10 ^ 9 ≤ 1 * Binary64.unitsPerOne := by
      decide +kernel
    rw [← @Nat.cast_le ℝ, Nat.cast_mul, Nat.cast_mul, Nat.cast_one, Nat.cast_pow,
      Nat.cast_ofNat] at hunits
    push_cast
    rwa [div_le_div_iff₀ (Nat.cast_pos.mpr Binary64.unitsPerOne_pos) (by positivity)]
  obtain ⟨high, hhigh, hsettleHigh, hestimateHigh⟩ :=
    settle_repairs (show 20 ≤ 20 by decide) (by decide : Binary64.maxSignificand < 2 ^ 52)
  obtain ⟨low, hlow, hsettleLow, hestimateLow⟩ :=
    settle_repairs (show 20 ≤ 20 by decide) (by decide : 0 < 2 ^ 52)
  obtain rfl : high = 2 ^ 20 - 1 := by
    have hattains : Attains (2 ^ 52 + Binary64.maxSignificand) 20 (2 ^ 20 - 1) :=
      Threshold.attains_of_lt_two_pow (by decide) (by decide)
    rw [Attains, Threshold.target] at hattains
    have hle : 2 ^ 20 - 1 ≤ high := hhigh.2 ⟨by decide, hattains⟩
    have hlt : high < 2 ^ 20 := hhigh.1.1
    omega
  obtain rfl : low = 0 := by
    have hattains : Attains (2 ^ 52 + 0) 20 low := hlow.1.2
    rwa [Nat.add_zero, Threshold.attains_two_pow_iff] at hattains
  exact ⟨by decide, by decide, hsettleHigh _ (by decide) (by decide),
    hsettleLow _ (by decide) (by decide), (hestimateHigh _ hupper).2, (hestimateLow _ hlower).1⟩

end Logarithm

end ExponentialHistogram
