/-
ExponentialHistogram.Proofs.Mapping.Decision — no comparison is left open.

A comparison is left open only if the power and its target agree in their
first hundred bits. The roots then agree as well, and the candidate lies next to
a boundary (`near_boundary_of_eq_none`), closer than boundaries come to integers
(`away_of_boundary`). So every comparison is decided
(`attains?_ne_none_of_lt`).

The rest says what follows for the callers. To tell why a walk gives up, `seek`
is `seek?` with the reason (`toOption_seek`). The only reason left is that it
runs out of steps, and it does so from every estimate that is more than 64 away
from the threshold and from no other (`seek_eq`).
-/
import Mathlib
import ExponentialHistogram.Proofs.Mapping.Logarithm
import ExponentialHistogram.Proofs.Mapping.Separation
import ExponentialHistogram.Proofs.Threshold.Derivation
import ExponentialHistogram.Proofs.Threshold.Margin
import ExponentialHistogram.Proofs.Threshold.Root

namespace ExponentialHistogram

namespace Threshold

variable {scale position candidate threshold : ℕ}

/-! ## Every comparison is decided -/

/-- Taking a root brings numbers closer to each other, in proportion. -/
theorem abs_sub_mul_pow_le {c x : ℝ} (hc : 0 ≤ c) (hx : 0 ≤ x) (n : ℕ) :
    |c - x| * x ^ n ≤ |c ^ (n + 1) - x ^ (n + 1)| := by
  rw [pow_succ', pow_succ' x]
  rcases le_total x c with hle | hle
  · have hpow : c * x ^ n ≤ c * c ^ n :=
      mul_le_mul_of_nonneg_left (pow_le_pow_left₀ hx hle n) hc
    rw [abs_of_nonneg (sub_nonneg.mpr hle), sub_mul]
    exact (sub_le_sub_right hpow _).trans (le_abs_self _)
  · have hpow : c * c ^ n ≤ c * x ^ n :=
      mul_le_mul_of_nonneg_left (pow_le_pow_left₀ hc hle n) hc
    rw [abs_of_nonpos (sub_nonpos.mpr hle), neg_sub, sub_mul, abs_sub_comm]
    exact (sub_le_sub_left hpow _).trans (le_abs_self _)

/-- A position of a table is one of those that comparisons are sound for. -/
theorem position_lt (hscale : scale ≤ 20) (hposition : position < 2 ^ scale) :
    position < 2 ^ 62 := by
  have htable : 2 ^ scale ≤ 2 ^ 20 := Nat.pow_le_pow_right (by decide) hscale
  omega

/-- The boundary of a position, counted in units of the last place, has the target as its power. -/
theorem boundary_pow (scale position : ℕ) :
    (2 ^ 52 * bucketStart scale position) ^ 2 ^ scale = 2 ^ target scale position := by
  have hstart := bucketStart_pow scale position
  rw [Int.toNat_natCast, Int.toNat_neg_natCast, pow_zero, mul_one, zpow_natCast] at hstart
  rw [mul_pow, hstart, target, pow_add, pow_mul]
  push_cast
  rfl

/-- Where a comparison is left open the candidate is next to the boundary. -/
theorem near_boundary_of_eq_none (hscale : scale ≤ 20) (hposition : position < 2 ^ scale)
    (hpos : 0 < candidate) (hlt : candidate < 2 ^ 64)
    (hopen : attains? candidate scale position = none) :
    |(candidate : ℝ) - 2 ^ 52 * bucketStart scale position|
      < 2 ^ 52 * bucketStart scale position * (1 / 2 ^ 100) := by
  have hnear : |(candidate : ℝ) ^ 2 ^ scale - 2 ^ target scale position|
      < 2 ^ target scale position * (1 / 2 ^ 100) := by
    have h := Rat.cast_lt (K := ℝ).mpr
      (near_of_eq_none hpos hlt hscale (position_lt hscale hposition) hopen)
    push_cast at h
    exact h
  have hx : 0 < 2 ^ 52 * bucketStart scale position :=
    mul_pos (by norm_num) (bucketStart_pos _ _)
  obtain ⟨n, hn⟩ := Nat.exists_eq_succ_of_ne_zero (Nat.two_pow_pos scale).ne'
  rw [← boundary_pow, hn] at hnear
  generalize 2 ^ 52 * bucketStart scale position = x at hnear hx ⊢
  have hpow := (abs_sub_mul_pow_le candidate.cast_nonneg hx.le n).trans_lt hnear
  rw [pow_succ', mul_right_comm] at hpow
  exact lt_of_mul_lt_mul_right hpow (pow_nonneg hx.le n)

/-- But no candidate is, except for the one that lies on the first boundary. -/
theorem away_of_boundary (hscale : scale ≤ 20) (hposition : position < 2 ^ scale)
    (hne : candidate ≠ 2 ^ 52) :
    1 / 2 ^ 35 ≤ |(candidate : ℝ) - 2 ^ 52 * bucketStart scale position| := by
  rcases Nat.eq_zero_or_pos position with rfl | hpos
  · have hone : (1 : ℤ) ≤ |(candidate : ℤ) - 2 ^ 52| := Int.one_le_abs (by omega)
    have hstart : bucketStart scale (0 : ℕ) = 1 := by
      rw [bucketStart, Nat.cast_zero, Int.cast_zero, zero_div, Real.rpow_zero]
    rw [hstart, mul_one]
    refine le_trans (by norm_num) (show (1 : ℝ) ≤ _ from ?_)
    exact_mod_cast hone
  · exact boundary_separated hscale hpos hposition candidate

/-- **No comparison is left open.** -/
theorem attains?_ne_none_of_lt (hscale : scale ≤ 20) (hposition : position < 2 ^ scale)
    (hpos : 0 < candidate) (hlt : candidate < 2 ^ 64) :
    attains? candidate scale position ≠ none := by
  intro hopen
  have hne : candidate ≠ 2 ^ 52 := by
    rintro rfl
    exact attains?_two_pow_ne_none (by decide) hopen
  have haway := away_of_boundary hscale hposition hne
  have hnear := near_boundary_of_eq_none hscale hposition hpos hlt hopen
  have hbound := bucketStart_le_two hposition.le
  generalize |(candidate : ℝ) - 2 ^ 52 * bucketStart scale position| = distance at haway hnear
  norm_num at haway hnear
  linarith

theorem attains?_eq_decide (hscale : scale ≤ 20) (hposition : position < 2 ^ scale)
    (hpos : 0 < candidate) (hlt : candidate < 2 ^ 64) :
    attains? candidate scale position = some (decide (Attains candidate scale position)) :=
  attains?_eq hpos hlt (target_lt hscale (position_lt hscale hposition))
    (attains?_ne_none_of_lt hscale hposition hpos hlt)

/-- A comparison tells the candidates from the threshold on. -/
theorem attains?_eq_of_isThreshold (hscale : scale ≤ 20) (hposition : position < 2 ^ scale)
    (hthreshold : IsThreshold threshold scale position) (hpos : 0 < candidate)
    (hlt : candidate < 2 ^ 64) :
    attains? candidate scale position = some (decide (threshold ≤ candidate)) := by
  rw [attains?_eq_decide hscale hposition hpos hlt]
  simp only [hthreshold.attains_iff]

/-! ## Walks that tell why they give up -/

/-- Why a walk gives up. -/
inductive GivingUp where
  /-- The comparison of this candidate is left open. -/
  | undecided (candidate : ℕ)
  | outOfSteps
  /-- The next candidate has more than 64 bits. -/
  | outOfRange
deriving DecidableEq, Repr

/-- `climb?`, with the reason. -/
def climb (scale position : ℕ) : (steps candidate : ℕ) → Except GivingUp (ℕ × ℕ)
  | steps, candidate =>
    match attains? candidate scale position with
    | none => .error (.undecided candidate)
    | some true => .ok (candidate, steps)
    | some false =>
      match steps with
      | 0 => .error .outOfSteps
      | steps + 1 =>
        if candidate + 1 < 2 ^ 64 then climb scale position steps (candidate + 1)
        else .error .outOfRange

/-- `descend?`, with the reason. -/
def descend (scale position : ℕ) : (steps candidate : ℕ) → Except GivingUp ℕ
  | steps, candidate =>
    match attains? (candidate - 1) scale position with
    | none => .error (.undecided (candidate - 1))
    | some false => .ok candidate
    | some true =>
      match steps with
      | 0 => .error .outOfSteps
      | steps + 1 => descend scale position steps (candidate - 1)

/-- `seek?`, with the reason. -/
def seek (scale position estimate : ℕ) : Except GivingUp ℕ := do
  let (candidate, steps) ← climb scale position maxSteps (estimate ||| 2 ^ 52)
  let threshold ← descend scale position steps candidate
  return threshold % 2 ^ 52

theorem toOption_climb (steps : ℕ) :
    (climb scale position steps candidate).toOption = climb? scale position steps candidate := by
  induction steps generalizing candidate with
  | zero =>
    rw [climb, climb?]
    cases attains? candidate scale position with
    | none => rfl
    | some verdict => cases verdict <;> rfl
  | succ steps ih =>
    rw [climb, climb?]
    cases attains? candidate scale position with
    | none => rfl
    | some verdict =>
      cases verdict with
      | true => rfl
      | false =>
        simp only
        split
        · exact ih
        · rfl

theorem toOption_descend (steps : ℕ) :
    (descend scale position steps candidate).toOption = descend? scale position steps candidate := by
  induction steps generalizing candidate with
  | zero =>
    rw [descend, descend?]
    cases attains? (candidate - 1) scale position with
    | none => rfl
    | some verdict => cases verdict <;> rfl
  | succ steps ih =>
    rw [descend, descend?]
    cases attains? (candidate - 1) scale position with
    | none => rfl
    | some verdict =>
      cases verdict with
      | true => exact ih
      | false => rfl

theorem toOption_seek (scale position estimate : ℕ) :
    (seek scale position estimate).toOption = seek? scale position estimate := by
  rw [seek, seek?, ← toOption_climb]
  cases climb scale position maxSteps (estimate ||| 2 ^ 52) with
  | error reason => rfl
  | ok stop =>
    simp only [bind, Except.bind, Except.toOption, Option.bind, ← toOption_descend]
    cases descend scale position stop.2 stop.1 <;> rfl

/-- The walk from a start to the threshold is not longer than a walk may be. -/
def InReach (threshold start : ℕ) : Prop :=
  start ≤ threshold + maxSteps ∧ threshold ≤ start + maxSteps

instance (threshold start : ℕ) : Decidable (InReach threshold start) :=
  inferInstanceAs (Decidable (_ ∧ _))

section Walk

variable (hscale : scale ≤ 20) (hposition : position < 2 ^ scale)
  (hthreshold : IsThreshold threshold scale position)
include hscale hposition hthreshold

/-- A climb arrives if its steps suffice. -/
theorem climb_eq {steps : ℕ} (hpos : 0 < candidate) (hlt : candidate < 2 ^ 64) :
    climb scale position steps candidate =
      if threshold ≤ candidate + steps then
        .ok (max candidate threshold, steps - (threshold - candidate))
      else .error .outOfSteps := by
  have hhigh := hthreshold.lt_two_pow (by omega) hposition
  induction steps generalizing candidate with
  | zero =>
    rw [climb, attains?_eq_of_isThreshold hscale hposition hthreshold hpos hlt]
    by_cases hle : threshold ≤ candidate
    · simp [hle]
    · simp [hle]
  | succ steps ih =>
    rw [climb, attains?_eq_of_isThreshold hscale hposition hthreshold hpos hlt]
    by_cases hle : threshold ≤ candidate
    · simp [hle, Nat.sub_eq_zero_of_le hle, Nat.le_add_right_of_le hle]
    · have hnext : candidate + 1 < 2 ^ 64 := by omega
      simp only [hle, decide_false, if_pos hnext]
      rw [ih (by omega) hnext]
      have hmax : max (candidate + 1) threshold = max candidate threshold := by omega
      have hleft : steps - (threshold - (candidate + 1)) = steps + 1 - (threshold - candidate) := by
        omega
      rw [hmax, hleft, Nat.add_right_comm, Nat.add_assoc]

/-- So does a descent. -/
theorem descend_eq {steps : ℕ} (hle : threshold ≤ candidate) (hlt : candidate < 2 ^ 64) :
    descend scale position steps candidate =
      if candidate ≤ threshold + steps then .ok threshold else .error .outOfSteps := by
  have hlow := hthreshold.le_threshold
  induction steps generalizing candidate with
  | zero =>
    rw [descend, attains?_eq_of_isThreshold hscale hposition hthreshold (by omega) (by omega)]
    by_cases heq : candidate = threshold
    · simp [heq, show ¬ threshold ≤ threshold - 1 by omega]
    · simp [show threshold ≤ candidate - 1 by omega, show ¬ candidate ≤ threshold by omega]
  | succ steps ih =>
    rw [descend, attains?_eq_of_isThreshold hscale hposition hthreshold (by omega) (by omega)]
    by_cases heq : candidate = threshold
    · simp [heq, show ¬ threshold ≤ threshold - 1 by omega]
    · have hgo : threshold ≤ candidate - 1 := by omega
      have hreach : candidate - 1 ≤ threshold + steps ↔ candidate ≤ threshold + (steps + 1) := by
        omega
      simp only [hgo, decide_true]
      rw [ih hgo (by omega)]
      simp only [hreach]

/-- **A walk arrives from the estimates at most 64 away**, and from all others runs out of steps. -/
theorem seek_eq {estimate : ℕ} (hestimate : estimate < 2 ^ 64) :
    seek scale position estimate =
      if InReach threshold (estimate ||| 2 ^ 52) then .ok (threshold - 2 ^ 52)
      else .error .outOfSteps := by
  have hlow := hthreshold.le_threshold
  have hhigh := hthreshold.lt_two_pow (by omega) hposition
  have hstart : estimate ||| 2 ^ 52 < 2 ^ 64 := Nat.or_lt_two_pow hestimate (by decide)
  have hpos : 2 ^ 52 ≤ estimate ||| 2 ^ 52 := Nat.right_le_or
  have hmod : threshold % 2 ^ 52 = threshold - 2 ^ 52 := by omega
  rw [seek]
  generalize estimate ||| 2 ^ 52 = start at hstart hpos ⊢
  rw [climb_eq hscale hposition hthreshold (by omega) hstart]
  by_cases hup : threshold ≤ start + maxSteps
  · have hdescend : descend scale position (maxSteps - (threshold - start)) (max start threshold) = _ :=
      descend_eq hscale hposition hthreshold (le_max_right start threshold) (by omega)
    simp only [hup, if_true, bind, Except.bind, hdescend]
    by_cases hdown : start ≤ threshold + maxSteps
    · rw [if_pos (by omega), if_pos (show InReach threshold start from ⟨hdown, hup⟩)]
      simp only [hmod]
      rfl
    · rw [if_neg (by omega), if_neg (fun h : InReach threshold start => hdown h.1)]
  · rw [if_neg (fun h : InReach threshold start => hup h.2)]
    simp only [hup, if_false, bind, Except.bind]

end Walk

/-- A walk that gives up has run out of steps. -/
theorem seek_eq_outOfSteps (hscale : scale ≤ 20) (hposition : position < 2 ^ scale) {estimate : ℕ}
    (hestimate : estimate < 2 ^ 64) (h : seek? scale position estimate = none) :
    seek scale position estimate = .error .outOfSteps := by
  obtain ⟨threshold, hthreshold⟩ := exists_isThreshold scale position
  rw [← toOption_seek] at h
  rw [seek_eq hscale hposition hthreshold hestimate] at h ⊢
  split
  · rename_i hreach
    rw [if_pos hreach] at h
    cases h
  · rfl

/-- A derivation fails only where a walk has run out of steps. -/
theorem derive_error (hpos : 1 ≤ scale) (hscale : scale ≤ 20) {estimates : Estimates}
    {error : MappingError} (h : Table.derive estimates scale = .error error) :
    ∃ position < 2 ^ scale, error = .undecided scale position ∧
      seek scale position (estimates.byExp2 scale position % 2 ^ 52) = .error .outOfSteps := by
  have hfine : (scale : ℤ) ∈ ScaleRange.fine :=
    ⟨show (1 : ℤ) ≤ scale by exact_mod_cast hpos, show (scale : ℤ) ≤ 20 by exact_mod_cast hscale⟩
  obtain ⟨t, hok, -⟩ | ⟨k, hfirst, herror⟩ := derive_outcome estimates hfine
  · rw [hok] at h
    cases h
  · rw [herror] at h
    cases h
    rw [Int.toNat_natCast] at hfirst
    refine ⟨k, hfirst.lt, rfl, ?_⟩
    exact seek_eq_outOfSteps hscale hfirst.lt (by omega) hfirst.walk?_eq_none

end Threshold

namespace Logarithm

open Threshold (Attains InReach IsThreshold attains? attains?_eq_decide attains?_ne_none_of_lt
  or_implicitBit seek_eq toOption_seek)

variable {scale position significand guess : ℕ}

/-- `settle`, with whole powers in place of their bounds. -/
def settleExactly (scale significand guess : ℕ) : ℕ :=
  if 0 < guess ∧ ¬ Attains (2 ^ 52 + significand) scale guess then guess - 1
  else if guess < lastPosition scale ∧ Attains (2 ^ 52 + significand) scale (guess + 1) then guess + 1
  else guess

theorem settleDecided (hscale : scale ≤ 20) (hsignificand : significand < 2 ^ 52)
    (hguess : guess ≤ lastPosition scale) : SettleDecided scale significand guess := by
  have htwo := Nat.two_pow_pos scale
  unfold lastPosition at hguess
  refine ⟨fun _ => ?_, fun hlt _ => ?_⟩
  · exact attains?_ne_none_of_lt hscale (by omega) (by omega) (by omega)
  · unfold lastPosition at hlt
    exact attains?_ne_none_of_lt hscale (by omega) (by omega) (by omega)

theorem settle_eq_settleExactly (hscale : scale ≤ 20) (hsignificand : significand < 2 ^ 52)
    (hguess : guess ≤ lastPosition scale) :
    settle scale significand guess = settleExactly scale significand guess := by
  have hverdict : ∀ k, k < 2 ^ scale → attains? (2 ^ 52 + significand) scale k
      = some (decide (Attains (2 ^ 52 + significand) scale k)) := by
    intro k hk
    exact attains?_eq_decide hscale hk (by omega) (by omega)
  have htwo := Nat.two_pow_pos scale
  unfold lastPosition at hguess
  have hnext : (guess < lastPosition scale ∧
      attains? (2 ^ 52 + significand) scale (guess + 1) = some true) ↔
      guess < lastPosition scale ∧ Attains (2 ^ 52 + significand) scale (guess + 1) := by
    refine and_congr_right fun hlt => ?_
    unfold lastPosition at hlt
    rw [hverdict _ (by omega), Option.some_inj, decide_eq_true_iff]
  simp only [settle, settleExactly, hverdict guess (by omega), Option.some_inj,
    decide_eq_false_iff_not, hnext]

/-- The entry at a position is the threshold or, more than 64 away from it, the estimate. -/
theorem entry_eq_ite (hscale : scale ≤ 20) (hposition : position < 2 ^ scale)
    (hthreshold : IsThreshold (2 ^ 52 + significand) scale position) (estimates : Estimates) :
    entry estimates scale position =
      if InReach (2 ^ 52 + significand) (2 ^ 52 + estimates.byExp scale position % 2 ^ 52) then
        significand
      else estimates.byExp scale position % 2 ^ 52 := by
  have hestimate : estimates.byExp scale position % 2 ^ 52 < 2 ^ 52 := Nat.mod_lt _ (by decide)
  rw [entry, ← toOption_seek, seek_eq hscale hposition hthreshold (by omega),
    or_implicitBit hestimate]
  split
  · simp [Except.toOption]
  · rfl

end Logarithm

open Threshold Logarithm in
/-- **No comparison that the library makes is left open.** A walk that gives up has run out of steps,
so this is what a failed derivation means; settling compares as if it had whole powers; and the entry
at a position is its threshold, unless the estimate is more than 64 away. -/
theorem comparisons_decided {scale : ℕ} (hpos : 1 ≤ scale) (hscale : scale ≤ 20) :
    (∀ position candidate, position < 2 ^ scale → 0 < candidate → candidate < 2 ^ 64 →
      attains? candidate scale position ≠ none) ∧
    (∀ position estimate, position < 2 ^ scale → estimate < 2 ^ 64 →
      seek? scale position estimate = none →
        seek scale position estimate = .error .outOfSteps) ∧
    (∀ estimates error, Table.derive estimates scale = .error error →
      ∃ position < 2 ^ scale, error = .undecided scale position ∧
        seek scale position (estimates.byExp2 scale position % 2 ^ 52) = .error .outOfSteps) ∧
    (∀ significand guess, significand < 2 ^ 52 → guess ≤ lastPosition scale →
      SettleDecided scale significand guess ∧
        settle scale significand guess = settleExactly scale significand guess) ∧
    (∀ estimates position, position < 2 ^ scale →
      ∃ significand < 2 ^ 52, IsThreshold (2 ^ 52 + significand) scale position ∧
        entry estimates scale position =
          if InReach (2 ^ 52 + significand) (2 ^ 52 + estimates.byExp scale position % 2 ^ 52) then
            significand
          else estimates.byExp scale position % 2 ^ 52) := by
  refine ⟨?_, ?_, ?_, ?_, ?_⟩
  · intro position candidate hposition hpositive hlt
    exact attains?_ne_none_of_lt hscale hposition hpositive hlt
  · intro position estimate hposition hestimate
    exact seek_eq_outOfSteps hscale hposition hestimate
  · intro estimates error herror
    exact derive_error hpos hscale herror
  · intro significand guess hsignificand hguess
    exact ⟨settleDecided hscale hsignificand hguess,
      settle_eq_settleExactly hscale hsignificand hguess⟩
  · intro estimates position hposition
    obtain ⟨threshold, hthreshold⟩ := exists_isThreshold scale position
    have hlow := hthreshold.le_threshold
    have hhigh := hthreshold.lt_two_pow (by omega) hposition
    obtain ⟨significand, rfl⟩ := Nat.exists_eq_add_of_le hlow
    exact ⟨significand, by omega, hthreshold, entry_eq_ite hscale hposition hthreshold estimates⟩

/-- The boundary that comes closest to an integer, with that integer and the one before it; and a walk
of one step too many, which gives up. -/
theorem comparisons_decided_closest :
    (1 ≤ 20 ∧ 20 ≤ 20 ∧ 308076 < 2 ^ 20) ∧
    Threshold.attains? 0x139d283c3ba2a7 20 308076 ≠ none ∧
    Threshold.attains? 0x139d283c3ba2a6 20 308076 ≠ none ∧
    Threshold.seek 20 308076 (0x139d283c3ba2a7 + 65) = .error .outOfSteps := by
  refine ⟨by decide, ?_, ?_, ?_⟩
  · exact (comparisons_decided (by decide) (by decide)).1 _ _ (by decide) (by decide) (by decide)
  · exact (comparisons_decided (by decide) (by decide)).1 _ _ (by decide) (by decide) (by decide)
  · refine (comparisons_decided (by decide) (by decide)).2.1 _ _ (by decide) (by decide) ?_
    decide +kernel

end ExponentialHistogram
