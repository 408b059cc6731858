/-
ExponentialHistogram.Proofs.Threshold.Margin — a comparison is left open only
next to its target.

A rounded square is off by less than one part in `2 ^ 127`, in either
direction (`sq_le_squareDown`, `squareUp_le_sq`). Squaring doubles the number
of such factors between two bounds and adds one on each side, so `n` squarings
of an exact number leave fewer than `2 ^ (n + 1)` (`Tight.squareTimes`). If the
target lies between bounds that close to each other, then the power does not
lie far from it (`near_of_eq_none`).

On the target itself nothing is left open: the number is a power of two then,
and these are squared without rounding (`exists_squareTimes_eq_exact`).
-/
import Mathlib
import ExponentialHistogram.Proofs.Threshold.Search

namespace ExponentialHistogram.Threshold

namespace WideFloat

/-! ## One rounding -/

/-- The bound of the relative error of one rounding. -/
def roundoff : ℚ := 1 / 2 ^ 127

theorem roundoff_pos : 0 < roundoff := by
  rw [roundoff]; positivity

variable {w : WideFloat}

/-- A unit of the last place, compared with the number. -/
theorem ulp_le (hw : w.IsNormalized) : (2 : ℚ) ^ w.exponent ≤ w.value * roundoff := by
  have hvalue := two_zpow_le_value hw
  rw [zpow_add₀ (by norm_num)] at hvalue
  rw [roundoff, mul_one_div, le_div_iff₀ (by positivity)]
  exact_mod_cast hvalue

theorem sq_le_squareDown (hw : w.IsNormalized) :
    w.value ^ 2 ≤ w.squareDown.value * (1 + roundoff) := by
  have hulp := ulp_le (isNormalized_squareDown hw)
  have hdropped : (w.splitSquare.2.toNat : ℚ) ≤ 2 ^ (128 : ℤ) := by
    exact_mod_cast w.splitSquare.2.isLt.le
  calc w.value ^ 2
      = w.squareDown.value + w.splitSquare.2.toNat * 2 ^ (w.squareDown.exponent - 128) :=
        value_sq_eq hw
    _ ≤ w.squareDown.value + 2 ^ (128 : ℤ) * 2 ^ (w.squareDown.exponent - 128) := by gcongr
    _ = w.squareDown.value + 2 ^ w.squareDown.exponent := by
        rw [← zpow_add₀ (by norm_num), add_sub_cancel]
    _ ≤ w.squareDown.value * (1 + roundoff) := by linarith

theorem squareUp_le_sq (hw : w.IsNormalized) : w.squareUp.value ≤ w.value ^ 2 * (1 + roundoff) := by
  have hdown := squareDown_le hw
  have hulp := ulp_le (isNormalized_squareDown hw)
  have hpos := value_pos (isNormalized_squareDown hw)
  have hround := roundoff_pos
  have hnext : w.squareUp.value ≤ w.squareDown.value + 2 ^ w.squareDown.exponent := by
    rw [squareUp_eq]
    split
    · exact le_add_of_nonneg_right (by positivity)
    · rw [value_next, add_one_mul]
      exact le_rfl
  calc w.squareUp.value ≤ w.squareDown.value + 2 ^ w.squareDown.exponent := hnext
    _ ≤ w.squareDown.value * (1 + roundoff) := by linarith
    _ ≤ w.value ^ 2 * (1 + roundoff) := by gcongr

/-- As many roundings as the widest comparison can accumulate. -/
theorem pow_roundoff_lt {n : ℕ} (hn : n ≤ 2 ^ 21) : (1 + roundoff) ^ n < 1 + 1 / 2 ^ 100 := by
  have hround := roundoff_pos
  have hsmall : roundoff ≤ 1 := by rw [roundoff]; norm_num
  have hcount : (n : ℚ) * roundoff ≤ 1 / 2 ^ 106 := by
    have hcast : (n : ℚ) ≤ 2 ^ 21 := by exact_mod_cast hn
    calc (n : ℚ) * roundoff ≤ 2 ^ 21 * roundoff := by gcongr
      _ = 1 / 2 ^ 106 := by rw [roundoff]; norm_num
  -- Bernoulli's inequality bounds the power from above once the factor is inverted.
  have hbernoulli := one_add_mul_le_pow (show (-2 : ℚ) ≤ -roundoff by linarith) n
  have hproduct : (1 + roundoff) ^ n * (1 + -roundoff) ^ n ≤ 1 := by
    rw [← mul_pow]
    exact pow_le_one₀ (by nlinarith) (by nlinarith)
  by_contra hlarge
  rw [not_lt] at hlarge
  have hbelow : (1 - 1 / 2 ^ 106 : ℚ) ≤ (1 + -roundoff) ^ n := by linarith
  have : (1 + 1 / 2 ^ 100 : ℚ) * (1 - 1 / 2 ^ 106) ≤ 1 :=
    (mul_le_mul hlarge hbelow (by norm_num) (by positivity)).trans hproduct
  norm_num at this

end WideFloat

/-! ## Many roundings -/

namespace Enclosure

open WideFloat (roundoff)

/-- The bounds are apart by this many roundings at most. -/
def Tight (e : Enclosure) (count : ℕ) : Prop :=
  e.upper.value ≤ e.lower.value * (1 + roundoff) ^ count

variable {e : Enclosure} {x : ℚ} {count : ℕ}

theorem Tight.square (h : e.Tight count) (he : e.Encloses x) : e.square.Tight (2 * count + 2) := by
  have hlower := WideFloat.sq_le_squareDown he.lower_normalized
  have hupper := WideFloat.squareUp_le_sq he.upper_normalized
  have hpos := WideFloat.value_pos he.upper_normalized
  have hround := WideFloat.roundoff_pos
  calc e.upper.squareUp.value
      ≤ e.upper.value ^ 2 * (1 + roundoff) := hupper
    _ ≤ (e.lower.value * (1 + roundoff) ^ count) ^ 2 * (1 + roundoff) := by
        have : e.upper.value ≤ e.lower.value * (1 + roundoff) ^ count := h
        gcongr
    _ = e.lower.value ^ 2 * (1 + roundoff) ^ (2 * count + 1) := by ring
    _ ≤ e.lower.squareDown.value * (1 + roundoff) * (1 + roundoff) ^ (2 * count + 1) := by gcongr
    _ = e.lower.squareDown.value * (1 + roundoff) ^ (2 * count + 2) := by ring

theorem Tight.squareTimes (n : ℕ) (h : e.Tight count) (he : e.Encloses x) :
    (Enclosure.squareTimes n e).Tight (2 ^ n * (count + 2) - 2) := by
  induction n generalizing e x count with
  | zero => simpa [Enclosure.squareTimes] using h
  | succ n ih =>
    have hrest := ih (h.square he) he.square
    rwa [show 2 ^ n * (2 * count + 2 + 2) - 2 = 2 ^ (n + 1) * (count + 2) - 2 by
      rw [Nat.pow_succ]; ring_nf] at hrest

/-- A power of two is squared without rounding, any number of times. -/
theorem exists_squareTimes_eq_exact (n : ℕ) {w : WideFloat} (hw : w.significand = 1#128 <<< 127) :
    ∃ v, Enclosure.squareTimes n (exact w) = exact v := by
  induction n generalizing w with
  | zero => exact ⟨w, rfl⟩
  | succ n ih =>
    have hwords : squareWords (1#128 <<< 127) = (1#128 <<< 126, 0) := by decide +kernel
    have hshift : (1#128 <<< 126) <<< 1 ||| (0 : BitVec 128) >>> 127 = 1#128 <<< 127 := by decide
    have hsplit : w.splitSquare = (⟨1#128 <<< 127, 2 * w.exponent + 127⟩, 0) := by
      simp only [WideFloat.splitSquare, hw, hwords]
      rw [if_neg (by decide), hshift]
      rfl
    have hsquare : (exact w).square = exact w.squareDown := by
      rw [Enclosure.square, exact, exact, WideFloat.squareUp_eq, hsplit, if_pos rfl]
    rw [Enclosure.squareTimes, hsquare]
    exact ih (by rw [WideFloat.squareDown, hsplit])

end Enclosure

/-! ## Where a comparison is left open -/

variable {candidate scale position : ℕ}

/-- The target lies between the bounds, and with it the power. -/
theorem near_of_eq_none (hpos : 0 < candidate) (hlt : candidate < 2 ^ 64) (hscale : scale ≤ 20)
    (hposition : position < 2 ^ 62) (h : attains? candidate scale position = none) :
    |(candidate : ℚ) ^ 2 ^ scale - 2 ^ target scale position|
      < 2 ^ target scale position * (1 / 2 ^ 100) := by
  have hpower := encloses_power hpos hlt scale
  have htight : (Enclosure.squareTimes scale (.exact (.ofNat candidate))).Tight
      (2 ^ scale * (0 + 2) - 2) := by
    refine Enclosure.Tight.squareTimes scale ?_ (encloses_power hpos hlt 0)
    rw [Enclosure.Tight, pow_zero, mul_one]
    exact le_rfl
  have hcount : 2 ^ scale * (0 + 2) - 2 ≤ 2 ^ 21 := by
    have : 2 ^ scale ≤ 2 ^ 20 := Nat.pow_le_pow_right (by decide) hscale
    omega
  simp only [attains?, signedTarget_eq (target_lt hscale hposition)] at h
  generalize Enclosure.squareTimes scale (.exact (.ofNat candidate)) = bounds at h hpower htight
  generalize target scale position = goal at h ⊢
  obtain ⟨hlow, hhigh⟩ : bounds.lower.exponent + 128 ≤ goal ∧ goal ≤ bounds.upper.exponent + 127 := by
    split at h
    · cases h
    · split at h
      · cases h
      · omega
  have hbelow : bounds.lower.value < 2 ^ goal := by
    rw [← zpow_natCast]
    exact (WideFloat.value_lt_two_zpow _).trans_le (zpow_le_zpow_right₀ (by norm_num) hlow)
  have habove : 2 ^ goal ≤ bounds.upper.value := by
    rw [← zpow_natCast]
    exact (zpow_le_zpow_right₀ (by norm_num) hhigh).trans
      (WideFloat.two_zpow_le_value hpower.upper_normalized)
  have hwidth : bounds.upper.value - bounds.lower.value < 2 ^ goal * (1 / 2 ^ 100) := by
    have hlower := WideFloat.value_pos hpower.lower_normalized
    have hfactor := WideFloat.pow_roundoff_lt hcount
    have hgap : bounds.upper.value - bounds.lower.value
        ≤ bounds.lower.value * ((1 + WideFloat.roundoff) ^ (2 ^ scale * (0 + 2) - 2) - 1) := by
      rw [mul_sub_one]
      exact sub_le_sub_right htight _
    calc bounds.upper.value - bounds.lower.value
        ≤ bounds.lower.value * ((1 + WideFloat.roundoff) ^ (2 ^ scale * (0 + 2) - 2) - 1) := hgap
      _ < bounds.lower.value * (1 / 2 ^ 100) := by gcongr; linarith
      _ ≤ 2 ^ goal * (1 / 2 ^ 100) := by gcongr
  have hin := hpower.lower_le
  have hout := hpower.le_upper
  rw [abs_lt]
  constructor <;> linarith

theorem ofNat_two_pow {j : ℕ} (hj : j < 64) :
    (WideFloat.ofNat (2 ^ j)).significand = 1#128 <<< 127 := by
  have hlt : 2 ^ j < 2 ^ 128 := Nat.pow_lt_pow_right (by decide) (by omega)
  have hlen : bitLength (2 ^ j) = j + 1 := by
    rw [bitLength, if_neg (Nat.two_pow_pos j).ne', Nat.log2_two_pow]
  apply BitVec.eq_of_toNat_eq
  rw [(WideFloat.ofNat_significand (Nat.two_pow_pos j) hlt).1, hlen, ← Nat.pow_add]
  rw [show j + (128 - (j + 1)) = 127 by omega]
  decide

/-- A comparison of a power of two is decided. -/
theorem attains?_two_pow_ne_none {j : ℕ} (hj : j < 64) : attains? (2 ^ j) scale position ≠ none := by
  obtain ⟨v, hv⟩ := Enclosure.exists_squareTimes_eq_exact scale (ofNat_two_pow hj)
  apply attains?_ne_none
  rw [hv]
  rfl

/-- A number with a power that is a power of two is one itself. -/
theorem exists_two_pow_of_pow_eq {goal : ℕ} (h : candidate ^ 2 ^ scale = 2 ^ goal) :
    ∃ j, candidate = 2 ^ j := by
  have hdvd : candidate ∣ 2 ^ goal := h ▸ dvd_pow_self _ (Nat.two_pow_pos scale).ne'
  obtain ⟨j, -, hj⟩ := (Nat.dvd_prime_pow Nat.prime_two).mp hdvd
  exact ⟨j, hj⟩

/-- **Only close to the target is a comparison left open**, and never on it: the power and the target
are apart by less than one part in `2 ^ 100`. Powers of two are always compared, and up to one
squaring every number is. -/
theorem open_only_near_target (hpos : 0 < candidate) (hlt : candidate < 2 ^ 64)
    (hscale : scale ≤ 20) (hposition : position < 2 ^ 62) :
    (attains? candidate scale position = none →
      candidate ^ 2 ^ scale ≠ 2 ^ target scale position ∧
        |(candidate : ℚ) ^ 2 ^ scale - 2 ^ target scale position|
          < 2 ^ ((target scale position : ℤ) - 100)) ∧
    ((∃ j, candidate = 2 ^ j) → attains? candidate scale position ≠ none) ∧
    (scale ≤ 1 → attains? candidate scale position ≠ none) := by
  have hpowers : (∃ j, candidate = 2 ^ j) → attains? candidate scale position ≠ none := by
    rintro ⟨j, rfl⟩
    exact attains?_two_pow_ne_none ((Nat.pow_lt_pow_iff_right (by decide)).mp hlt)
  refine ⟨?_, hpowers, ?_⟩
  · intro h
    refine ⟨?_, ?_⟩
    · intro heq
      exact hpowers (exists_two_pow_of_pow_eq heq) h
    · have hnear := near_of_eq_none hpos hlt hscale hposition h
      rwa [zpow_sub₀ (by norm_num), zpow_natCast, div_eq_mul_one_div]
  · intro hone
    obtain rfl | rfl : scale = 0 ∨ scale = 1 := by omega
    · exact attains?_ne_none rfl
    · exact attains?_one_ne_none hpos hlt

/-- A power of two on its target after all twenty squarings, and a number that no power of two is near
to. -/
theorem open_only_near_target_at_finest :
    (0 < 2 ^ 63 ∧ 2 ^ 63 < 2 ^ 64 ∧ 20 ≤ 20 ∧ 11 * 2 ^ 20 < 2 ^ 62) ∧
    attains? (2 ^ 63) 20 (11 * 2 ^ 20) ≠ none ∧
    attains? 0x16a09e667f3bcd 1 1 ≠ none ∧
    (attains? 0x16a09e667f3bcd 20 (2 ^ 19) = none →
      |((0x16a09e667f3bcd : ℕ) : ℚ) ^ 2 ^ 20 - 2 ^ target 20 (2 ^ 19)|
        < 2 ^ ((target 20 (2 ^ 19) : ℤ) - 100)) := by
  refine ⟨by decide, ?_, ?_, ?_⟩
  · exact (open_only_near_target (by decide) (by decide) (by decide) (by decide)).2.1 ⟨63, rfl⟩
  · exact (open_only_near_target (by decide) (by decide) (by decide) (by decide)).2.2 le_rfl
  · intro h
    exact ((open_only_near_target (by decide) (by decide) (by decide) (by decide)).1 h).2

end ExponentialHistogram.Threshold
