/-
ExponentialHistogram.Proofs.Mapping.Inclusion — buckets that hold their upper
boundary.

`InUpperBucket` says in exact arithmetic that a value lies behind the start of
a bucket and not behind that of the next. The index of an upper-inclusive
mapping is the one integer of which that holds. Where no start is met it is
the index of the lower-inclusive mapping (`IsExact.bucket_of_not_meetsStart`),
and on a start it is one less, because the starts are strictly ascending
(`IsExact.bucket_of_meetsStart`).

Which doubles meet a start is a question about powers of two only: a start is
a root of one, and a rational root of a power of two is a power of two
(`meetsStart_iff`).
-/
import Mathlib
import ExponentialHistogram.Platform
import ExponentialHistogram.Proofs.Mapping.Exact

namespace ExponentialHistogram

open Binary64 (Normalized minPositive)

/-! ## Upper-inclusive buckets in exact arithmetic -/

/-- The upper-inclusive bucket: `2 ^ index < value ^ (2 ^ scale) ≤ 2 ^ (index + 1)`, and at a
negative scale `2 ^ (index * 2 ^ -scale) < value ≤ 2 ^ ((index + 1) * 2 ^ -scale)`. -/
def InUpperBucket (scale index : ℤ) (value : ℚ) : Prop :=
  if 0 ≤ scale then
    (2 : ℚ) ^ index < value ^ 2 ^ scale.toNat ∧ value ^ 2 ^ scale.toNat ≤ 2 ^ (index + 1)
  else
    (2 : ℚ) ^ (index * 2 ^ (-scale).toNat) < value ∧
      value ≤ 2 ^ ((index + 1) * 2 ^ (-scale).toNat)

theorem inUpperBucket_iff {v : ℚ} (hv : 0 < v) (scale index : ℤ) :
    InUpperBucket scale index v ↔
      bucketStart scale index < v ∧ v ≤ bucketStart scale (index + 1) := by
  rw [← not_lt (b := (v : ℝ)), bucketStart_lt_iff hv, bucketStart_lt_iff hv, not_lt, InUpperBucket]
  split
  · rename_i hscale
    rw [Int.toNat_of_nonpos (by omega : -scale ≤ 0), pow_zero, mul_one, mul_one]
  · rename_i hscale
    rw [Int.toNat_of_nonpos (by omega : scale ≤ 0), pow_zero, pow_one]

/-! ## Values on a start -/

/-- The value is the start of some bucket. -/
def MeetsStart (scale : ℤ) (value : ℚ) : Prop := ∃ j : ℤ, bucketStart scale j = value

theorem bucketStart_eq_iff {v : ℚ} (hv : 0 < v) (scale index : ℤ) :
    bucketStart scale index = v ↔
      (2 : ℚ) ^ (index * 2 ^ (-scale).toNat) = v ^ 2 ^ scale.toNat := by
  rw [eq_iff_le_not_lt, eq_iff_le_not_lt, bucketStart_le_iff hv, bucketStart_lt_iff hv]

theorem bucketStart_lt_bucketStart_iff (scale : ℤ) {i j : ℤ} :
    bucketStart scale i < bucketStart scale j ↔ i < j := by
  rw [bucketStart, bucketStart, Real.rpow_lt_rpow_left_iff (by norm_num),
    div_lt_div_iff_of_pos_right (by positivity), Int.cast_lt]

/-- **A start that is met is a power of two.** At a negative scale its exponent is a multiple of the
number of powers in a bucket; at other scales that number is one. -/
theorem meetsStart_iff {v : Binary64} (hv : v.isPositiveFinite = true) (scale : ℤ) :
    MeetsStart scale v.value ↔ ∃ e : ℤ, 2 ^ (-scale).toNat ∣ e ∧ v.value = 2 ^ e := by
  have hpos := Binary64.value_pos hv
  unfold MeetsStart
  simp only [bucketStart_eq_iff hpos]
  rcases le_total 0 scale with hscale | hscale
  · -- A root: the significand decides, and then every exponent will do.
    rw [Int.toNat_of_nonpos (by omega : -scale ≤ 0), pow_zero, ← Binary64.value_normalized hv]
    simp only [mul_one, one_dvd, true_and,
      two_zpow_eq_value_pow_iff v.normalized_significand_lt,
      Normalized.value_eq_two_zpow_iff v.normalized_significand_lt]
    exact ⟨fun ⟨_, hzero, _⟩ => ⟨_, hzero, rfl⟩, fun ⟨_, hzero, _⟩ => ⟨_, hzero, rfl⟩⟩
  · rw [Int.toNat_of_nonpos hscale, pow_zero, pow_one]
    constructor
    · rintro ⟨j, hj⟩
      exact ⟨_, dvd_mul_left _ j, hj.symm⟩
    · rintro ⟨e, ⟨j, rfl⟩, hj⟩
      exact ⟨j, by rw [hj, mul_comm]⟩

namespace Mapping

variable {estimates : Estimates} {scale : ℤ} {lower upper : Mapping}

/-! ## The two conventions side by side -/

section

variable (hlower : lower.IsExact estimates) (hupper : upper.IsExact estimates)
  (hscale : lower.scale = upper.scale) (hlowerc : lower.convention = .lowerInclusive)
  (hupperc : upper.convention = .upperInclusive) {v : Binary64} (hv : v.isPositiveFinite = true)
include hlower hupper hscale hlowerc hupperc hv

/-- On a start the lower-inclusive index is one more. -/
theorem IsExact.bucket_of_meetsStart (h : MeetsStart upper.scale v.value) :
    lower.bucket estimates v.normalized = upper.bucket estimates v.normalized + 1 := by
  obtain ⟨j, hj⟩ := h
  have hle : ∀ i, i ≤ lower.bucket estimates v.normalized ↔ i ≤ j := by
    intro i
    rw [hlower.le_bucket_normalized_iff hv, hlowerc, hscale, ← not_lt,
      ← bucketStart_lt_bucketStart_iff upper.scale, hj, not_lt]
    rfl
  have hlt : ∀ i, i ≤ upper.bucket estimates v.normalized ↔ i < j := by
    intro i
    rw [hupper.le_bucket_normalized_iff hv, hupperc,
      ← bucketStart_lt_bucketStart_iff upper.scale, hj]
    rfl
  have hself := (hle j).mpr le_rfl
  have hlast := (hle _).mp le_rfl
  have hbefore := (hlt (j - 1)).mpr (by omega)
  have hbehind := (hlt _).mp le_rfl
  omega

/-- Off the starts the conventions agree. -/
theorem IsExact.bucket_of_not_meetsStart (h : ¬ MeetsStart upper.scale v.value) :
    lower.bucket estimates v.normalized = upper.bucket estimates v.normalized := by
  refine eq_of_forall_le_iff fun i => ?_
  rw [hlower.le_bucket_normalized_iff hv, hupper.le_bucket_normalized_iff hv, hlowerc, hupperc,
    hscale]
  have hne : bucketStart upper.scale i ≠ v.value := fun heq => h ⟨i, heq⟩
  exact ⟨fun hle => lt_of_le_of_ne hle hne, fun hlt => (show _ < _ from hlt).le⟩

end

/-! ## The upper-inclusive index -/

/-- Where one convention is constructed the other one is as well. -/
theorem Constructed.exists_convention {c : Convention} (h : Constructed estimates scale c upper)
    (c' : Convention) : ∃ m, Constructed estimates scale c' m := by
  cases h with
  | powers h =>
    cases hrequire : ScaleRange.coarse.require scale with
    | error e => rw [ofPowers, hrequire] at h; cases h
    | ok u => exact ⟨_, .powers (by rw [ofPowers, hrequire]; rfl)⟩
  | @table cache _ hcache h =>
    cases htable : (cache.request estimates scale).1 with
    | error e => simp only [ofScale, htable] at h; cases h
    | ok t => exact ⟨_, .table hcache (by simp only [ofScale, htable]; rfl)⟩
  | raced hcache h => exact ⟨_, .raced hcache h⟩

/-- **The upper-inclusive index is exact**, and differs from the lower-inclusive one only on starts,
where it is one less. The doubles that meet a start are the powers of two, and at a negative scale
those whose exponent is a multiple of the number of powers in a bucket. -/
theorem upper_index_unique (hm : Constructed estimates scale .upperInclusive upper) {v : Binary64}
    (hv : v.isPositiveFinite = true) :
    (∃ i : ℤ, upper.index estimates v = .ok i ∧
      (∀ j : ℤ, InUpperBucket scale j v.value ↔ j = i) ∧
      (∀ j : ℤ, bucketStart scale j < v.value ∧ v.value ≤ bucketStart scale (j + 1) ↔ j = i) ∧
      (∃ lower, Constructed estimates scale .lowerInclusive lower) ∧
      ∀ lower, Constructed estimates scale .lowerInclusive lower →
        (¬ MeetsStart scale v.value → lower.index estimates v = .ok i) ∧
          (MeetsStart scale v.value → lower.index estimates v = .ok (i + 1))) ∧
    (0 ≤ scale → (MeetsStart scale v.value ↔ ∃ e : ℤ, v.value = 2 ^ e)) ∧
    (scale < 0 →
      (MeetsStart scale v.value ↔ ∃ e : ℤ, 2 ^ (-scale).toNat ∣ e ∧ v.value = 2 ^ e)) := by
  obtain ⟨hexact, rfl, hconvention⟩ := hm.isExact
  have hunique : ∀ j : ℤ, bucketStart upper.scale j < v.value ∧
      v.value ≤ bucketStart upper.scale (j + 1) ↔ j = upper.bucket estimates v.normalized := by
    intro j
    have hstart : ∀ i : ℤ, bucketStart upper.scale i < v.value ↔
        i ≤ upper.bucket estimates v.normalized := by
      intro i
      rw [hexact.le_bucket_normalized_iff hv, hconvention]
      rfl
    rw [← not_lt (a := bucketStart upper.scale (j + 1)), hstart, hstart]
    omega
  refine ⟨⟨upper.bucket estimates v.normalized, by rw [index, if_pos hv], ?_, hunique,
    hm.exists_convention _, ?_⟩, ?_, fun _ => meetsStart_iff hv _⟩
  · intro j
    rw [inUpperBucket_iff (Binary64.value_pos hv), hunique]
  · intro lower hl
    obtain ⟨hlexact, hscale, hlconvention⟩ := hl.isExact
    rw [index, if_pos hv]
    refine ⟨?_, ?_⟩
    · intro hoff
      rw [hlexact.bucket_of_not_meetsStart hexact hscale hlconvention hconvention hv hoff]
    · intro hon
      rw [hlexact.bucket_of_meetsStart hexact hscale hlconvention hconvention hv hon]
  · intro hscale
    rw [meetsStart_iff hv, Int.toNat_of_nonpos (by omega : -upper.scale ≤ 0), pow_zero]
    simp only [one_dvd, true_and]

/-- In buckets of two powers of two the smallest double, `2 ^ -1074`, meets a start. -/
theorem upper_index_unique_minPositive :
    Constructed platformEstimates (-1) .upperInclusive ⟨.powers 1, .upperInclusive⟩ ∧
      Constructed platformEstimates (-1) .lowerInclusive ⟨.powers 1, .lowerInclusive⟩ ∧
      minPositive.isPositiveFinite = true ∧ MeetsStart (-1) minPositive.value ∧
      ∃ i : ℤ, Mapping.index platformEstimates ⟨.powers 1, .upperInclusive⟩ minPositive = .ok i ∧
        (∀ j : ℤ, InUpperBucket (-1) j minPositive.value ↔ j = i) ∧
        Mapping.index platformEstimates ⟨.powers 1, .lowerInclusive⟩ minPositive
          = .ok (i + 1) := by
  have hupper : Constructed platformEstimates (-1) .upperInclusive
      ⟨.powers 1, .upperInclusive⟩ := .powers rfl
  have hlower : Constructed platformEstimates (-1) .lowerInclusive
      ⟨.powers 1, .lowerInclusive⟩ := .powers rfl
  have hv : minPositive.isPositiveFinite = true := by decide
  obtain ⟨⟨i, hindex, hbucket, -, -, hlowerindex⟩, -, hmeets⟩ := upper_index_unique hupper hv
  have hunits : minPositive.units = 1 := by decide
  have hpower : minPositive.value = 2 ^ (-1074 : ℤ) := by
    rw [Binary64.value_of_isPositiveFinite hv, hunits, Nat.cast_one, one_mul]
  have hstart : MeetsStart (-1) minPositive.value :=
    (hmeets (by decide)).mpr ⟨-1074, by decide, hpower⟩
  exact ⟨hupper, hlower, hv, hstart, i, hindex, hbucket, (hlowerindex _ hlower).2 hstart⟩

end Mapping

end ExponentialHistogram
