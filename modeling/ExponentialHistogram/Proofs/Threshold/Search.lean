/-
ExponentialHistogram.Proofs.Threshold.Search — comparisons are right, and so
is what a walk by comparisons finds.

A verdict of `attains?` is read off an enclosure of the power, so a verdict
that is given is the truth (`attains?_sound`). Nothing is said here about how
often none is given; where one is needed, that it is not missing is a
hypothesis.

The walk has two halves. `climb?` stops at a number that attains the
position, `descend?` at one whose predecessor does not; together that is the
threshold, whatever the estimate was (`seek?_sound`). With all verdicts given
and an estimate at most 64 off the walk does arrive (`seek?_complete`): the
steps that one half takes the other does not need.
-/
import Mathlib
import ExponentialHistogram.Proofs.Threshold.Order
import ExponentialHistogram.Proofs.Threshold.WideFloat
import ExponentialHistogram.Threshold.Search

namespace ExponentialHistogram.Threshold

variable {scale position candidate : Nat}

/-! ## Verdicts -/

theorem target_lt (hscale : scale ≤ 20) (hposition : position < 2 ^ 62) :
    target scale position < 2 ^ 63 := by
  have : 2 ^ scale ≤ 2 ^ 20 := Nat.pow_le_pow_right (by decide) hscale
  unfold target
  omega

/-- Below `2 ^ 63` a target is its own signed reading. -/
theorem signedTarget_eq (h : target scale position < 2 ^ 63) :
    signedTarget scale position = target scale position := by
  exact Int.bmod_eq_of_le (by norm_num) (by norm_num; omega)

/-- The bounds that a comparison works with enclose the power of the candidate. -/
theorem encloses_power (hpos : 0 < candidate) (hlt : candidate < 2 ^ 64) (scale : Nat) :
    (Enclosure.squareTimes scale (.exact (.ofNat candidate))).Encloses
      ((candidate : ℚ) ^ 2 ^ scale) := by
  have hwide : candidate < 2 ^ 128 := by omega
  have hexact := Enclosure.encloses_exact (WideFloat.isNormalized_ofNat hpos hwide)
  rw [WideFloat.value_ofNat hpos hwide] at hexact
  exact hexact.squareTimes scale

/-- **A verdict that is given is the truth.** -/
theorem attains?_sound {verdict : Bool} (hpos : 0 < candidate) (hlt : candidate < 2 ^ 64)
    (htarget : target scale position < 2 ^ 63)
    (h : attains? candidate scale position = some verdict) :
    verdict = true ↔ Attains candidate scale position := by
  have hpower := encloses_power hpos hlt scale
  have hcast : Attains candidate scale position ↔
      (2 : ℚ) ^ (target scale position : ℤ) ≤ (candidate : ℚ) ^ 2 ^ scale := by
    rw [Attains, zpow_natCast]
    exact_mod_cast Iff.rfl
  rw [hcast]
  simp only [attains?, signedTarget_eq htarget] at h
  split at h
  · rename_i hlower
    cases h
    refine iff_of_true rfl ?_
    exact (zpow_le_zpow_right₀ (by norm_num) hlower).trans
      ((WideFloat.two_zpow_le_value hpower.lower_normalized).trans hpower.lower_le)
  · split at h
    · rename_i hupper
      cases h
      refine iff_of_false Bool.false_ne_true (not_le.mpr ?_)
      exact hpower.le_upper.trans_lt ((WideFloat.value_lt_two_zpow _).trans_le
        (zpow_le_zpow_right₀ (by norm_num) hupper))
    · cases h

/-- A comparison that is not left open decides. -/
theorem attains?_eq (hpos : 0 < candidate) (hlt : candidate < 2 ^ 64)
    (htarget : target scale position < 2 ^ 63) (h : attains? candidate scale position ≠ none) :
    attains? candidate scale position = some (decide (Attains candidate scale position)) := by
  cases hverdict : attains? candidate scale position with
  | none => exact absurd hverdict h
  | some verdict =>
    rw [Option.some_inj, Bool.eq_iff_iff, attains?_sound hpos hlt htarget hverdict,
      decide_eq_true_iff]

/-- Bounds with one exponent leave nothing open. -/
theorem attains?_ne_none (h : (Enclosure.squareTimes scale (.exact (.ofNat candidate))).lower.exponent
      = (Enclosure.squareTimes scale (.exact (.ofNat candidate))).upper.exponent) :
    attains? candidate scale position ≠ none := by
  simp only [attains?, h]
  split
  · simp
  · rw [if_pos (by omega)]
    simp

/-- The first squaring of a number with 64 bits is exact. -/
theorem attains?_one_ne_none (hpos : 0 < candidate) (hlt : candidate < 2 ^ 64) :
    attains? candidate 1 position ≠ none := by
  refine attains?_ne_none ?_
  simp only [Enclosure.squareTimes, Enclosure.square, Enclosure.exact]
  rw [WideFloat.squareUp_eq, if_pos (WideFloat.splitSquare_ofNat hpos hlt)]

/-! ## The walk arrives at the threshold -/

/-- Climbing stops at a number that was seen to attain the position. -/
theorem climb?_sound {steps found left : Nat}
    (h : climb? scale position steps candidate = some (found, left)) (hlt : candidate < 2 ^ 64) :
    attains? found scale position = some true ∧ found < 2 ^ 64 := by
  induction steps generalizing candidate with
  | zero =>
    rw [climb?] at h
    split at h
    · cases h
    · rename_i hverdict; cases h; exact ⟨hverdict, hlt⟩
    · cases h
  | succ steps ih =>
    rw [climb?] at h
    split at h
    · cases h
    · rename_i hverdict; cases h; exact ⟨hverdict, hlt⟩
    · split at h
      · rename_i hnext; exact ih h hnext
      · cases h

/-- Descending keeps to numbers that attain the position and stops before one that does not. -/
theorem descend?_sound {steps found : Nat} (h : descend? scale position steps candidate = some found)
    (hattains : attains? candidate scale position = some true) :
    attains? found scale position = some true ∧
      attains? (found - 1) scale position = some false ∧ found ≤ candidate := by
  induction steps generalizing candidate with
  | zero =>
    rw [descend?] at h
    split at h
    · cases h
    · rename_i hverdict; cases h; exact ⟨hattains, hverdict, le_rfl⟩
    · cases h
  | succ steps ih =>
    rw [descend?] at h
    split at h
    · cases h
    · rename_i hverdict; cases h; exact ⟨hattains, hverdict, le_rfl⟩
    · rename_i hverdict
      obtain ⟨hfound, hpred, hle⟩ := ih h hverdict
      exact ⟨hfound, hpred, by omega⟩

/-- The walk starts from the estimate with its implicit bit. -/
theorem or_implicitBit {estimate : Nat} (h : estimate < 2 ^ 52) :
    estimate ||| 2 ^ 52 = 2 ^ 52 + estimate := by
  rw [Nat.or_comm]
  simpa using (Nat.two_pow_add_eq_or_of_lt h 1).symm

/-- **What a walk finds is the threshold**, however bad the estimate. -/
theorem seek?_sound {estimate significand : Nat} (hscale : scale ≤ 20)
    (hposition : position < 2 ^ scale) (hestimate : estimate < 2 ^ 52)
    (h : seek? scale position estimate = some significand) :
    significand < 2 ^ 52 ∧ IsThreshold (2 ^ 52 + significand) scale position := by
  have htable : 2 ^ scale ≤ 2 ^ 20 := Nat.pow_le_pow_right (by decide) hscale
  have htarget : target scale position < 2 ^ 63 := target_lt hscale (by omega)
  rw [seek?, or_implicitBit hestimate] at h
  obtain ⟨⟨top, steps⟩, hclimb, h⟩ := Option.bind_eq_some_iff.mp h
  obtain ⟨found, hdescend, h⟩ := Option.bind_eq_some_iff.mp h
  obtain ⟨htop, htoplt⟩ := climb?_sound hclimb (by omega)
  obtain ⟨hfound, hpred, hle⟩ := descend?_sound hdescend htop
  have hpos : 0 < found := by
    rcases Nat.eq_zero_or_pos found with rfl | hpos
    · rw [hfound] at hpred; cases hpred
    · exact hpos
  have hattains := (attains?_sound hpos (by omega) htarget hfound).mp rfl
  have hnot : ¬ Attains (found - 1) scale position := by
    have hbit := hattains.le
    have := attains?_sound (by omega) (by omega) htarget hpred
    simpa using this
  have hthreshold := isThreshold_of_pred hattains hnot
  have hlow := hthreshold.le_threshold
  have hhigh := hthreshold.lt_two_pow (by omega) hposition
  cases h
  have hmod : 2 ^ 52 + found % 2 ^ 52 = found := by omega
  exact ⟨Nat.mod_lt _ (by decide), hmod.symm ▸ hthreshold⟩

/-! ## An estimate that is close enough suffices -/

/-- No comparison between a start and a threshold is left open. These are the ones that a walk from
the start makes; the last of them is that of the threshold's predecessor. -/
def WalkDecided (scale position start threshold : Nat) : Prop :=
  ∀ n, min start (threshold - 1) ≤ n → n ≤ max start threshold → attains? n scale position ≠ none

section Complete

variable {threshold : Nat} (htarget : target scale position < 2 ^ 63)
  (hthreshold : IsThreshold threshold scale position)
include htarget hthreshold

/-- Climbing from below the threshold takes as many steps as it is away; from above, none. -/
theorem climb?_complete {steps : Nat} (hbound : threshold < 2 ^ 53) (hpos : 0 < candidate)
    (hhigh : candidate < 2 ^ 53)
    (hdecided : ∀ n, candidate ≤ n → n ≤ max candidate threshold → attains? n scale position ≠ none)
    (hsteps : threshold ≤ candidate + steps) :
    climb? scale position steps candidate
      = some (max candidate threshold, steps - (threshold - candidate)) := by
  have hverdict := attains?_eq hpos (by omega) htarget (hdecided candidate le_rfl (by omega))
  -- The verdict at the candidate goes through the induction with it.
  induction steps generalizing candidate with
  | zero =>
    have hle : threshold ≤ candidate := hsteps
    have hattains : Attains candidate scale position := hthreshold.attains_iff.mpr hle
    rw [climb?, hverdict]
    simp [hattains, hle]
  | succ steps ih =>
    rw [climb?, hverdict]
    by_cases hle : threshold ≤ candidate
    · have hattains : Attains candidate scale position := hthreshold.attains_iff.mpr hle
      simp [hattains, hle, Nat.sub_eq_zero_of_le hle]
    · have hattains : ¬ Attains candidate scale position :=
        fun h => hle (hthreshold.attains_iff.mp h)
      have hnext : candidate + 1 < 2 ^ 64 := by omega
      have hrest : ∀ n, candidate + 1 ≤ n → n ≤ max (candidate + 1) threshold →
          attains? n scale position ≠ none := fun n hn hn' => hdecided n (by omega) (by omega)
      simp only [hattains, decide_false, if_pos hnext]
      rw [ih (by omega) (by omega) hrest (by omega)
        (attains?_eq (by omega) (by omega) htarget (hrest _ le_rfl (by omega)))]
      congr 2 <;> omega

/-- Descending arrives at the threshold if it is not too far below. -/
theorem descend?_complete {steps : Nat} (hle : threshold ≤ candidate) (hhigh : candidate < 2 ^ 53)
    (hdecided : ∀ n, threshold - 1 ≤ n → n < candidate → attains? n scale position ≠ none)
    (hsteps : candidate ≤ threshold + steps) :
    descend? scale position steps candidate = some threshold := by
  have hlow := hthreshold.le_threshold
  have hverdict := attains?_eq (by omega) (by omega) htarget
    (hdecided (candidate - 1) (by omega) (by omega))
  induction steps generalizing candidate with
  | zero =>
    obtain rfl : candidate = threshold := by omega
    have hattains : ¬ Attains (candidate - 1) scale position :=
      fun h => absurd (hthreshold.attains_iff.mp h) (by omega)
    rw [descend?, hverdict]
    simp [hattains]
  | succ steps ih =>
    rw [descend?, hverdict]
    by_cases heq : candidate = threshold
    · subst heq
      have hattains : ¬ Attains (candidate - 1) scale position :=
        fun h => absurd (hthreshold.attains_iff.mp h) (by omega)
      simp [hattains]
    · have hattains : Attains (candidate - 1) scale position :=
        hthreshold.attains_iff.mpr (by omega)
      simp only [hattains, decide_true]
      exact ih (by omega) (by omega) (fun n hn hn' => hdecided n hn (by omega)) (by omega)
        (attains?_eq (by omega) (by omega) htarget (hdecided _ (by omega) (by omega)))

end Complete

/-- **A walk from an estimate at most 64 off finds the threshold**, if none of its comparisons is
left open. -/
theorem seek?_complete (hscale : scale ≤ 20) (hposition : position < 2 ^ scale)
    {estimate significand : Nat} (hestimate : estimate < 2 ^ 52) (hsignificand : significand < 2 ^ 52)
    (hthreshold : IsThreshold (2 ^ 52 + significand) scale position)
    (hdecided : WalkDecided scale position (2 ^ 52 + estimate) (2 ^ 52 + significand))
    (hup : significand ≤ estimate + maxSteps) (hdown : estimate ≤ significand + maxSteps) :
    seek? scale position estimate = some significand := by
  have htable : 2 ^ scale ≤ 2 ^ 20 := Nat.pow_le_pow_right (by decide) hscale
  have htarget : target scale position < 2 ^ 63 := target_lt hscale (by omega)
  rw [seek?, or_implicitBit hestimate,
    climb?_complete htarget hthreshold (by omega) (by omega) (by omega)
      (fun n hn hn' => hdecided n (by omega) hn') (by omega)]
  simp only [Option.bind_eq_bind, Option.bind_some]
  rw [descend?_complete htarget hthreshold (by omega) (by omega)
    (fun n hn hn' => hdecided n (by omega) (by omega)) (by omega)]
  simp only [Option.bind_some, Option.pure_def]
  congr 1
  omega

end ExponentialHistogram.Threshold
