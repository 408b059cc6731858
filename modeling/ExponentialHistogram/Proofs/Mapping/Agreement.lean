/-
ExponentialHistogram.Proofs.Mapping.Agreement — the mapping by logarithm
answers like the mapping by table.

What is asked of the floating-point functions is stated once, as two
properties of the estimates: they are accurate (`Estimates.Accurate`), and no
comparison made on the way from them to an answer is left open
(`Estimates.Decided`). Both are about the comparisons and positions of one
scale. The real functions, rounded, are accurate at every scale
(`accurate_rounded`), and at scale 1 nothing is ever left open
(`decided_one`).

Then positions and entries are those of an exact table (`position_eq_table`,
`entry_eq_table`). A mapping takes nothing else from its partition, so the
answers are the same (`sameAnswers_table`).
-/
import Mathlib
import ExponentialHistogram.Proofs.Mapping.Exact
import ExponentialHistogram.Proofs.Mapping.Logarithm
import ExponentialHistogram.Mapping.Configuration

namespace ExponentialHistogram

open Threshold (IsThreshold WalkDecided)
open Logarithm (SettleDecided)

/-! ## Assumptions about the estimates -/

/-- The floating-point functions are accurate at a scale. An estimate that is infinite or not a
number has no value in reach of the logarithm. -/
structure Estimates.Accurate (estimates : Estimates) (scale : ℕ) : Prop where
  /-- Scaled logarithms are at most a billionth off. -/
  position : ∀ significand, significand < 2 ^ 52 →
    |((estimates.position scale significand).value : ℝ) - scaledLog scale significand| ≤ 1 / 10 ^ 9
  /-- Exponentials are at most 64 off in the significand. -/
  byExp : ∀ position significand, position < 2 ^ scale →
    IsThreshold (2 ^ 52 + significand) scale position →
      significand ≤ estimates.byExp scale position % 2 ^ 52 + 64 ∧
        estimates.byExp scale position % 2 ^ 52 ≤ significand + 64

/-- No comparison that is made on the way from an estimate to an answer is left open. -/
structure Estimates.Decided (estimates : Estimates) (scale : ℕ) : Prop where
  settle : ∀ significand, significand < 2 ^ 52 →
    (estimates.position scale significand).isNearInteger = true →
      SettleDecided scale significand
        (Logarithm.guess scale (estimates.position scale significand))
  walk : ∀ position significand, position < 2 ^ scale →
    IsThreshold (2 ^ 52 + significand) scale position →
      WalkDecided scale position (2 ^ 52 + estimates.byExp scale position % 2 ^ 52)
        (2 ^ 52 + significand)

/-! ## Estimates that meet the assumptions -/

/-- The double `n / 2 ^ 30`, for `n` with 53 bits. -/
def Binary64.ofScaled (n : ℕ) : Binary64 :=
  if n = 0 then ⟨0⟩
  else (Binary64.Normalized.mk (bitLength n - 31) (n * 2 ^ (53 - bitLength n) - 2 ^ 52)).ceil

theorem Binary64.value_ofScaled {n : ℕ} (h : n < 2 ^ 53) : (ofScaled n).value = n / 2 ^ 30 := by
  unfold ofScaled
  split
  · rename_i hzero
    have hunits : (⟨0⟩ : Binary64).units = 0 := by decide
    rw [value, hunits, hzero, Nat.cast_zero, mul_zero, zero_div, zero_div]
  · rename_i hne
    obtain ⟨hlen, hlow, hhigh⟩ := shift_leading_one (Nat.pos_of_ne_zero hne) h
    have hbit : 2 ^ 52 ≤ n * 2 ^ (53 - bitLength n) := by omega
    have hceil := Normalized.ceil_of_normal
      (show (Normalized.mk (bitLength n - 31) (n * 2 ^ (53 - bitLength n) - 2 ^ 52)).significand
        < 2 ^ 52 by simp only; omega)
      (by simp only [minNormalExponent]; omega) (by simp only [maxNormalExponent]; omega)
    rw [hceil.2, Normalized.value_eq_mul, Nat.add_sub_cancel' hbit, Nat.cast_mul, Nat.cast_pow,
      Nat.cast_ofNat, mul_assoc, ← zpow_natCast, ← zpow_add₀ (by norm_num), div_eq_mul_inv,
      ← zpow_natCast, ← zpow_neg]
    congr 2
    simp only
    omega

namespace Estimates

/-- Estimates by the real functions, rounded to a number of fixed places. -/
noncomputable def rounded : Estimates where
  position scale significand := .ofScaled ⌊((2 ^ 30 : ℕ) : ℝ) * scaledLog scale significand⌋₊
  byExp scale position := ⌈((2 ^ 52 : ℕ) : ℝ) * bucketStart scale position⌉₊ % 2 ^ 52
  byExp2 scale position := ⌈((2 ^ 52 : ℕ) : ℝ) * bucketStart scale position⌉₊ % 2 ^ 52

theorem rounded_position_error {scale significand : ℕ} (hscale : scale ≤ 20)
    (hsignificand : significand < 2 ^ 52) :
    |((rounded.position scale significand).value : ℝ) - scaledLog scale significand|
      ≤ 1 / 10 ^ 9 := by
  have hlt : scaledLog scale significand < 2 ^ 20 :=
    (scaledLog_lt scale hsignificand).trans_le (pow_le_pow_right₀ (by norm_num) hscale)
  have hunits : (0 : ℝ) < (2 ^ 30 : ℕ) := Nat.cast_pos.mpr (Nat.two_pow_pos 30)
  have hnonneg : 0 ≤ ((2 ^ 30 : ℕ) : ℝ) * scaledLog scale significand :=
    mul_nonneg hunits.le (scaledLog_nonneg scale significand)
  have hfloor := Nat.floor_le hnonneg
  have hceil := Nat.lt_floor_add_one (((2 ^ 30 : ℕ) : ℝ) * scaledLog scale significand)
  have hbound : ⌊((2 ^ 30 : ℕ) : ℝ) * scaledLog scale significand⌋₊ < 2 ^ 53 := by
    rw [Nat.floor_lt hnonneg]
    push_cast
    linarith
  have hstep : (1 : ℝ) / (2 ^ 30 : ℕ) ≤ 1 / 10 ^ 9 := by norm_num
  rw [← div_le_iff₀' hunits] at hfloor
  rw [← lt_div_iff₀' hunits, add_div] at hceil
  simp only [rounded]
  rw [Binary64.value_ofScaled hbound, abs_le]
  push_cast at *
  constructor <;> linarith

/-- The threshold at a position is the start of its bucket, rounded up. -/
theorem rounded_byExp {scale position significand : ℕ} (hscale : scale ≤ 20)
    (hposition : position < 2 ^ scale)
    (hthreshold : IsThreshold (2 ^ 52 + significand) scale position) :
    rounded.byExp scale position = significand := by
  have hbound := hthreshold.lt_two_pow (by omega) hposition
  have hattains : ∀ n : ℕ, ⌈((2 ^ 52 : ℕ) : ℝ) * bucketStart scale position⌉₊ ≤ n ↔
      Threshold.Attains n scale position := by
    intro n
    rw [Nat.ceil_le, bucketStart_mul_le_iff]
  have hceil : ⌈((2 ^ 52 : ℕ) : ℝ) * bucketStart scale position⌉₊ = 2 ^ 52 + significand :=
    le_antisymm ((hattains _).mpr hthreshold.attains)
      (hthreshold.least _ ((hattains _).mp le_rfl))
  simp only [rounded, hceil]
  omega

theorem accurate_rounded {scale : ℕ} (hscale : scale ≤ 20) : rounded.Accurate scale where
  position significand hsignificand := rounded_position_error hscale hsignificand
  byExp position significand hposition hthreshold := by
    have hbound := hthreshold.lt_two_pow (by omega) hposition
    rw [rounded_byExp hscale hposition hthreshold]
    omega

/-- At scale 1 no comparison is left open, whatever the estimates. -/
theorem decided_one (estimates : Estimates) : estimates.Decided 1 where
  settle significand hsignificand _ :=
    ⟨fun _ => Threshold.attains?_one_ne_none (by omega) (by omega),
      fun _ _ => Threshold.attains?_one_ne_none (by omega) (by omega)⟩
  walk position significand hposition hthreshold n hlow hhigh := by
    have hestimate : estimates.byExp 1 position % 2 ^ 52 < 2 ^ 52 := Nat.mod_lt _ (by decide)
    have hbound := hthreshold.lt_two_pow (by decide) hposition
    exact Threshold.attains?_one_ne_none (by omega) (by omega)

end Estimates

/-! ## Positions and entries of an exact table -/

namespace Logarithm

variable {estimates : Estimates} {t : Threshold.Table}

theorem position_eq_table (hscale : t.scale ≤ 20) (ht : t.IsExact)
    (haccurate : estimates.Accurate t.scale) (hdecided : estimates.Decided t.scale)
    {significand : ℕ} (hsignificand : significand < 2 ^ 52) :
    position estimates t.scale significand = t.position significand :=
  positionOfEstimate_eq hsignificand (ht.isLastAttained significand)
    (haccurate.position significand hsignificand) hscale
    (hdecided.settle significand hsignificand)

theorem entry_eq_table (hscale : t.scale ≤ 20) (ht : t.IsExact)
    (haccurate : estimates.Accurate t.scale) (hdecided : estimates.Decided t.scale)
    {position : ℕ} (hposition : position < 2 ^ t.scale) :
    entry estimates t.scale position = t.entry position := by
  have hthreshold := ht.isThreshold position hposition
  obtain ⟨hup, hdown⟩ := haccurate.byExp position _ hposition hthreshold
  exact entry_eq hscale hposition (ht.entry_lt position hposition) hthreshold hup hdown
    (hdecided.walk position _ hposition hthreshold)

end Logarithm

namespace Mapping

variable {estimates : Estimates} {m m' : Mapping}

/-! ## Mappings with the same answers -/

/-- The mappings answer every query alike. -/
structure SameAnswers (estimates : Estimates) (m m' : Mapping) : Prop where
  scale : m.scale = m'.scale
  convention : m.convention = m'.convention
  index : ∀ v : Binary64, m.index estimates v = m'.index estimates v
  minIndex : m.minIndex estimates = m'.minIndex estimates
  maxIndex : m.maxIndex estimates = m'.maxIndex estimates
  lowerBound : ∀ i : ℤ, m.lowerBound estimates i = m'.lowerBound estimates i

theorem SameAnswers.refl (estimates : Estimates) (m : Mapping) : SameAnswers estimates m m :=
  ⟨rfl, rfl, fun _ => rfl, rfl, rfl, fun _ => rfl⟩

/-- Buckets and boundaries are all that the answers are made of. -/
theorem SameAnswers.of_bucket (hscale : m.scale = m'.scale)
    (hconvention : m.convention = m'.convention)
    (hbucket : ∀ n : Binary64.Normalized, n.significand < 2 ^ 52 →
      m.bucket estimates n = m'.bucket estimates n)
    (hboundary : ∀ i : ℤ, m.boundary estimates i = m'.boundary estimates i) :
    SameAnswers estimates m m' := by
  have hmin : m.minIndex estimates = m'.minIndex estimates :=
    hbucket _ (Binary64.normalized_significand_lt _)
  have hmax : m.maxIndex estimates = m'.maxIndex estimates :=
    hbucket _ (Binary64.normalized_significand_lt _)
  refine ⟨hscale, hconvention, ?_, hmin, hmax, ?_⟩
  · intro v
    rw [Mapping.index, Mapping.index, hbucket _ v.normalized_significand_lt]
  · intro i
    rw [Mapping.lowerBound, Mapping.lowerBound, hmin, hmax, hboundary]

/-- The logarithm and an exact table of the scale. -/
theorem sameAnswers_table {t : Threshold.Table} (hscale : t.scale ≤ 20) (ht : t.IsExact)
    (haccurate : estimates.Accurate t.scale) (hdecided : estimates.Decided t.scale)
    (c : Convention) : SameAnswers estimates ⟨.logarithm t.scale, c⟩ (ofTable t c) := by
  refine .of_bucket rfl rfl ?_ ?_
  · intro n hn
    simp only [bucket, ofTable]
    rw [Logarithm.position_eq_table hscale ht haccurate hdecided hn]
  · intro i
    obtain ⟨k, hk, hmod, -⟩ := exists_split_index t.scale i
    simp only [boundary, ofTable, hmod]
    rw [Logarithm.entry_eq_table hscale ht haccurate hdecided hk]

/-! ## Strategies agree -/

/-- Beside a mapping by table there is one by logarithm with the same answers. -/
theorem Constructed.exists_ofLogarithm {scale : ℤ} {c : Convention}
    (hm : Constructed estimates scale c m) (hscale : 1 ≤ scale)
    (haccurate : estimates.Accurate scale.toNat) (hdecided : estimates.Decided scale.toNat) :
    ∃ m' : Mapping, ofLogarithm scale c = .ok m' ∧ SameAnswers estimates m' m := by
  rcases hm.powers_or_table with ⟨hmem, -⟩ | ⟨hmem, t, rfl, hexact, rfl⟩
  · have hbounds : -10 ≤ scale ∧ scale ≤ 0 := hmem
    omega
  · have hbounds : 1 ≤ (t.scale : ℤ) ∧ (t.scale : ℤ) ≤ 20 := hmem
    refine ⟨⟨.logarithm t.scale, c⟩, ?_,
      sameAnswers_table (by omega) hexact haccurate hdecided c⟩
    rw [ofLogarithm, ScaleRange.require_eq_ok_iff.mpr hmem]
    rfl

/-- **The logarithm answers like the table.** Where a mapping by table is constructed, the mapping by
logarithm is as well, and the two have the same answers. So it is with configurations that differ in
the strategy only. -/
theorem strategies_agree {scale : ℤ} {c : Convention}
    (haccurate : 1 ≤ scale → estimates.Accurate scale.toNat)
    (hdecided : 1 ≤ scale → estimates.Decided scale.toNat) :
    (∀ m : Mapping, 1 ≤ scale → Constructed estimates scale c m →
      ∃ m' : Mapping, ofLogarithm scale c = .ok m' ∧ SameAnswers estimates m' m) ∧
    (∀ (cache cache' : Threshold.Cache) (m : Mapping), cache.Reachable estimates →
      (Configuration.build estimates ⟨scale, .lookupTable, c⟩ cache).1 = .ok m →
        ∃ m' : Mapping, (Configuration.build estimates ⟨scale, .logarithm, c⟩ cache').1 = .ok m' ∧
          SameAnswers estimates m' m) := by
  refine ⟨?_, ?_⟩
  · intro m hscale hm
    exact hm.exists_ofLogarithm hscale (haccurate hscale) (hdecided hscale)
  · intro cache cache' m hcache hbuild
    cases hrequire : ScaleRange.all.require scale with
    | error e => simp only [Configuration.build, hrequire] at hbuild; cases hbuild
    | ok u =>
      have hall : -10 ≤ scale ∧ scale ≤ 20 := ScaleRange.require_eq_ok_iff.mp hrequire
      simp only [Configuration.build, hrequire] at hbuild ⊢
      by_cases hcoarse : scale ∈ ScaleRange.coarse
      · -- Coarse scales have one way only, whatever the strategy.
        rw [if_pos hcoarse] at hbuild ⊢
        exact ⟨m, hbuild, .refl estimates m⟩
      · rw [if_neg hcoarse] at hbuild ⊢
        have hscale : 1 ≤ scale := by
          by_contra hle
          exact hcoarse (show -10 ≤ scale ∧ scale ≤ 0 by omega)
        have hm : Constructed estimates scale c m := .table hcache hbuild
        exact hm.exists_ofLogarithm hscale (haccurate hscale) (hdecided hscale)

/-- Two buckets for each power of two. -/
theorem strategies_agree_one :
    (1 ≤ (1 : ℤ) → Estimates.rounded.Accurate (1 : ℤ).toNat) ∧
      (1 ≤ (1 : ℤ) → Estimates.rounded.Decided (1 : ℤ).toNat) ∧
      (∅ : Threshold.Cache).Reachable Estimates.rounded ∧
      ∃ m m' : Mapping,
        (Configuration.build Estimates.rounded ⟨1, .lookupTable, .upperInclusive⟩ ∅).1 = .ok m ∧
        (Configuration.build Estimates.rounded ⟨1, .logarithm, .upperInclusive⟩ ∅).1 = .ok m' ∧
        SameAnswers Estimates.rounded m' m := by
  have haccurate := Estimates.accurate_rounded (by decide : 1 ≤ 20)
  have hdecided := Estimates.decided_one Estimates.rounded
  have hbuild : ∃ m : Mapping,
      (Configuration.build Estimates.rounded ⟨1, .lookupTable, .upperInclusive⟩ ∅).1 = .ok m :=
    ⟨_, rfl⟩
  obtain ⟨m, hbuild⟩ := hbuild
  obtain ⟨m', hbuild', hsame⟩ :=
    (strategies_agree (fun _ => haccurate) (fun _ => hdecided)).2 ∅ ∅ m .empty hbuild
  exact ⟨fun _ => haccurate, fun _ => hdecided, .empty, m, m', hbuild, hbuild', hsame⟩

end Mapping

end ExponentialHistogram
