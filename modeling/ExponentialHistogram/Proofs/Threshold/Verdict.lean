/-
ExponentialHistogram.Proofs.Threshold.Verdict — verdicts follow the order of
candidates and positions.

That verdicts are true does not order them: a comparison left open could still
stand between two that affirm. What orders them is the rounding. A rounded
square is the greatest number below or the least one above, so larger numbers
have larger rounded squares in either direction (`squareDown_mono`,
`squareUp_mono`), and two enclosures whose bounds are ordered stay so through
any number of squarings (`AtMost.squareTimes`). A verdict is read off exponents
alone, which are ordered like the bounds they belong to, and a smaller target
makes it no harder to affirm (`rank_verdict_mono`).
-/
import Mathlib
import ExponentialHistogram.Proofs.Threshold.Directed

namespace ExponentialHistogram.Threshold

/-! ## Rounded squares -/

namespace WideFloat

variable {w w' : WideFloat}

theorem squareDown_mono (hw : w.IsNormalized) (hw' : w'.IsNormalized) (h : w.value ≤ w'.value) :
    w.squareDown.value ≤ w'.squareDown.value := by
  refine (squareDown_isGreatest hw).mono (squareDown_isGreatest hw') ?_
  rintro x ⟨hx, hle⟩
  exact ⟨hx, hle.trans (value_sq_le_value_sq hw h)⟩

theorem squareUp_mono (hw : w.IsNormalized) (hw' : w'.IsNormalized) (h : w.value ≤ w'.value) :
    w.squareUp.value ≤ w'.squareUp.value := by
  refine (squareUp_isLeast hw').mono (squareUp_isLeast hw) ?_
  rintro x ⟨hx, hle⟩
  exact ⟨hx, (value_sq_le_value_sq hw h).trans hle⟩

end WideFloat

/-! ## Ordered bounds -/

namespace Enclosure

/-- Neither bound is above the one of the other enclosure. -/
structure AtMost (e e' : Enclosure) : Prop where
  lower_le : e.lower.value ≤ e'.lower.value
  upper_le : e.upper.value ≤ e'.upper.value

variable {e e' : Enclosure} {x x' : ℚ}

/-- One squaring. -/
theorem AtMost.square (h : e.AtMost e') (he : e.Encloses x) (he' : e'.Encloses x') :
    e.square.AtMost e'.square where
  lower_le := WideFloat.squareDown_mono he.lower_normalized he'.lower_normalized h.lower_le
  upper_le := WideFloat.squareUp_mono he.upper_normalized he'.upper_normalized h.upper_le

/-- A run of squarings. -/
theorem AtMost.squareTimes (n : ℕ) (h : e.AtMost e') (he : e.Encloses x) (he' : e'.Encloses x') :
    (Enclosure.squareTimes n e).AtMost (Enclosure.squareTimes n e') := by
  induction n generalizing e e' x x' with
  | zero => exact h
  | succ n ih => exact ih (h.square he he') he.square he'.square

end Enclosure

variable {scale position position' candidate candidate' : ℕ}

/-- Larger candidates have larger bounds, since they start as they are. -/
theorem atMost_power (hpos : 0 < candidate) (hle : candidate ≤ candidate')
    (hlt : candidate' < 2 ^ 64) (scale : ℕ) :
    (Enclosure.squareTimes scale (.exact (.ofNat candidate))).AtMost
      (Enclosure.squareTimes scale (.exact (.ofNat candidate'))) := by
  have hvalue : (WideFloat.ofNat candidate).value ≤ (WideFloat.ofNat candidate').value := by
    rw [WideFloat.value_ofNat hpos (by omega), WideFloat.value_ofNat (by omega) (by omega)]
    exact_mod_cast hle
  have hstart : (Enclosure.exact (.ofNat candidate)).AtMost (.exact (.ofNat candidate')) :=
    ⟨hvalue, hvalue⟩
  exact hstart.squareTimes scale (encloses_power hpos (by omega) 0)
    (encloses_power (by omega) hlt 0)

/-! ## Verdicts -/

/-- The order of verdicts: denied, left open, affirmed. -/
def rank : Option Bool → ℕ
  | some false => 0
  | none => 1
  | some true => 2

/-- The verdict on a goal that the bounds of a power allow. -/
def verdict (goal : ℤ) (power : Enclosure) : Option Bool :=
  if goal ≤ power.lower.exponent + 127 then some true
  else if power.upper.exponent + 128 ≤ goal then some false
  else none

theorem attains?_eq_verdict (candidate scale position : ℕ) :
    attains? candidate scale position
      = verdict (signedTarget scale position)
          (Enclosure.squareTimes scale (.exact (.ofNat candidate))) := rfl

theorem rank_verdict_mono {goal goal' : ℤ} {power power' : Enclosure} (hgoal : goal' ≤ goal)
    (hlower : power.lower.exponent ≤ power'.lower.exponent)
    (hupper : power.upper.exponent ≤ power'.upper.exponent) :
    rank (verdict goal power) ≤ rank (verdict goal' power') := by
  unfold verdict
  split
  · -- affirmed, and the other with it
    rw [if_pos (by omega)]
  · split
    · -- denied, which is below any other
      exact Nat.zero_le _
    · -- left open, so the other is not denied
      split
      · decide
      · rw [if_neg (by omega)]

theorem signedTarget_le (hscale : scale ≤ 20) (hle : position ≤ position')
    (hlt : position' < 2 ^ 62) : signedTarget scale position ≤ signedTarget scale position' := by
  rw [signedTarget_eq (target_lt hscale (by omega)), signedTarget_eq (target_lt hscale hlt), target,
    target]
  omega

/-- **Verdicts are monotone.** A larger candidate is not judged lower at the same position, and no
candidate is judged higher at a later one. So comparisons left open, if there are any, stand between
those that deny and those that affirm. -/
theorem verdicts_monotone (hpos : 0 < candidate) (hle : candidate ≤ candidate')
    (hlt : candidate' < 2 ^ 64) (hscale : scale ≤ 20) (hposition : position ≤ position')
    (hposition' : position' < 2 ^ 62) :
    rank (attains? candidate scale position) ≤ rank (attains? candidate' scale position) ∧
    rank (attains? candidate scale position') ≤ rank (attains? candidate scale position) := by
  have hpower := encloses_power hpos (by omega) scale
  have hordered := atMost_power hpos hle hlt scale
  simp only [attains?_eq_verdict]
  constructor
  · exact rank_verdict_mono le_rfl
      (WideFloat.exponent_le_of_value_le hpower.lower_normalized hordered.lower_le)
      (WideFloat.exponent_le_of_value_le hpower.upper_normalized hordered.upper_le)
  · exact rank_verdict_mono (signedTarget_le hscale hposition hposition') le_rfl le_rfl

/-- The predecessor of a threshold of scale 12, beside the threshold and at the position before. -/
theorem verdicts_monotone_neighbours :
    (0 < 0x13460b1b9fd711 ∧ 0x13460b1b9fd711 ≤ 0x13460b1b9fd712 ∧ 0x13460b1b9fd712 < 2 ^ 64 ∧
      12 ≤ 20 ∧ 1099 ≤ 1100 ∧ 1100 < 2 ^ 62) ∧
    (attains? 0x13460b1b9fd711 12 1099 = some true ∧
      attains? 0x13460b1b9fd711 12 1100 = some false ∧
      attains? 0x13460b1b9fd712 12 1100 = some true) ∧
    rank (attains? 0x13460b1b9fd711 12 1100) ≤ rank (attains? 0x13460b1b9fd712 12 1100) ∧
    rank (attains? 0x13460b1b9fd711 12 1100) ≤ rank (attains? 0x13460b1b9fd711 12 1099) := by
  have hcandidates := @verdicts_monotone 12 1100 1100 0x13460b1b9fd711 0x13460b1b9fd712 (by decide)
    (by decide) (by decide) (by decide) (by decide) (by decide)
  have hpositions := @verdicts_monotone 12 1099 1100 0x13460b1b9fd711 0x13460b1b9fd711 (by decide)
    (by decide) (by decide) (by decide) (by decide) (by decide)
  refine ⟨by decide, ⟨?_, ?_, ?_⟩, hcandidates.1, hpositions.2⟩
  · decide +kernel
  · decide +kernel
  · decide +kernel

end ExponentialHistogram.Threshold
