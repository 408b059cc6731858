/-
ExponentialHistogram.Proofs.Mapping.RoundTrip — from a bucket to its lower bound
and back to an index.

A lower bound is the least double at or above the start of its bucket. So the
way back ends in the bucket itself or above it, and above it exactly if the
bucket holds no double (`IsExact.bucket_eq_iff_exists`). Among the subnormal
numbers such buckets exist. Among the normal ones they do not: neighbouring
doubles are at most one part in `2 ^ 52` apart, and neighbouring starts are
farther apart at every scale up to 20 (`bucketStart_pred_lt`), so the double
just below a lower bound lies in the bucket before.

That one comparison gives both halves. With the bucket's own start it keeps
the double below from skipping a bucket; with the next start it keeps the lower
bound from reaching that.
-/
import Mathlib
import ExponentialHistogram.Platform
import ExponentialHistogram.Proofs.Binary64.Grid
import ExponentialHistogram.Proofs.Mapping.Inclusion
import ExponentialHistogram.Proofs.Mapping.Resolution

namespace ExponentialHistogram

/-! ## Distances between starts -/

/-- One part in `2 ^ 52`, taken off `2 ^ 20` times, does not amount to a half. -/
theorem half_lt_pow_finest : (1 / 2 : ℚ) < (1 - 1 / 2 ^ 52) ^ 2 ^ 20 := by
  have hbernoulli := one_add_mul_le_pow (show (-2 : ℚ) ≤ -(1 / 2 ^ 52) by norm_num) (2 ^ 20)
  rw [← sub_eq_add_neg] at hbernoulli
  refine lt_of_lt_of_le ?_ hbernoulli
  norm_num

/-- At the finest scale: the start before the last one that a value has passed is below every value
that is at most one part in `2 ^ 52` less. -/
theorem bucketStart_finest_pred_lt {j : ℤ} {v w : ℚ} (hv : 0 < v) (hstart : bucketStart 20 j ≤ v)
    (hnear : v * (1 - 1 / 2 ^ 52) ≤ w) : bucketStart 20 (j - 1) < w := by
  have hfactor : (0 : ℚ) < 1 - 1 / 2 ^ 52 := by norm_num
  have hproduct : 0 < v * (1 - 1 / 2 ^ 52) := mul_pos hv hfactor
  have hw : 0 < w := hproduct.trans_le hnear
  rw [bucketStart_le_iff hv] at hstart
  rw [bucketStart_lt_iff hw]
  simp only [Int.reduceNeg, Int.reduceToNat, pow_zero, mul_one] at hstart ⊢
  calc (2 : ℚ) ^ (j - 1) = 2 ^ j * (1 / 2) := by rw [zpow_sub_one₀ (by norm_num), one_div]
    _ ≤ v ^ 2 ^ 20 * (1 / 2) := mul_le_mul_of_nonneg_right hstart (by norm_num)
    _ < v ^ 2 ^ 20 * (1 - 1 / 2 ^ 52) ^ 2 ^ 20 :=
      mul_lt_mul_of_pos_left half_lt_pow_finest (pow_pos hv _)
    _ = (v * (1 - 1 / 2 ^ 52)) ^ 2 ^ 20 := (mul_pow _ _ _).symm
    _ ≤ w ^ 2 ^ 20 := pow_le_pow_left₀ hproduct.le hnear _

/-- The same at every scale up to the finest, whose starts are among those of the finest. -/
theorem bucketStart_pred_lt {scale j : ℤ} (hscale : scale ≤ 20) {v w : ℚ} (hv : 0 < v)
    (hstart : bucketStart scale j ≤ v) (hnear : v * (1 - 1 / 2 ^ 52) ≤ w) :
    bucketStart scale (j - 1) < w := by
  obtain ⟨finer, hfiner⟩ : ∃ finer : ℕ, scale + finer = 20 := ⟨(20 - scale).toNat, by omega⟩
  have hnested : ∀ i : ℤ, bucketStart 20 (i * 2 ^ finer) = bucketStart scale i := by
    intro i
    rw [← hfiner, bucketStart_nested]
  have hstep : (1 : ℤ) ≤ 2 ^ finer := one_le_pow₀ (by norm_num)
  rw [← hnested] at hstart ⊢
  refine lt_of_le_of_lt ?_ (bucketStart_finest_pred_lt hv hstart hnear)
  rw [← not_lt, bucketStart_lt_bucketStart_iff, Int.sub_mul, one_mul]
  omega

namespace Mapping

variable {estimates : Estimates} {scale : ℤ} {c : Convention} {m : Mapping} {i : ℤ}
  {x y : Binary64}

theorem Constructed.scale_le (hm : Constructed estimates scale c m) : scale ≤ 20 := by
  rcases hm.powers_or_table with ⟨hmem, -⟩ | ⟨hmem, -⟩
  · have hbounds : -10 ≤ scale ∧ scale ≤ 0 := hmem
    omega
  · exact hmem.2

/-- A lower bound with a near neighbour below does not reach the next start. -/
theorem lowerBound_lt_bucketStart_succ (hscale : scale ≤ 20) (hx : x.isPositiveFinite = true)
    (hleast : ∀ y : Binary64, y.isPositiveFinite = true →
      (x.value ≤ y.value ↔ bucketStart scale i ≤ y.value))
    (hy : y.IsJustBelow x) (hnear : x.value * (1 - 1 / 2 ^ 52) ≤ y.value) :
    x.value < bucketStart scale (i + 1) := by
  by_contra hreached
  have hpassed := bucketStart_pred_lt hscale (Binary64.value_pos hx) (not_lt.mp hreached) hnear
  rw [Int.add_sub_cancel] at hpassed
  exact absurd hy.value_lt (not_lt.mpr ((hleast y hy.isPositiveFinite).mpr hpassed.le))

section

variable (hm : m.IsExact estimates)
include hm

/-- The bucket of a value is the one whose start it has passed and whose end it has not. -/
theorem IsExact.bucket_eq_iff {v : Binary64} (hv : v.isPositiveFinite = true) :
    m.bucket estimates v.normalized = i ↔
      m.convention.Admits (bucketStart m.scale i) v.value ∧
        ¬ m.convention.Admits (bucketStart m.scale (i + 1)) v.value := by
  rw [← hm.le_bucket_normalized_iff hv, ← hm.le_bucket_normalized_iff hv]
  omega

variable (hx : x.isPositiveFinite = true)
  (hleast : ∀ y : Binary64, y.isPositiveFinite = true →
    (x.value ≤ y.value ↔ bucketStart m.scale i ≤ y.value))
include hx hleast

/-- Back from a lower bound: the bucket is reached again, or a later one. -/
theorem IsExact.le_bucket_of_lowerInclusive (hc : m.convention = .lowerInclusive) :
    i ≤ m.bucket estimates x.normalized := by
  rw [hm.le_bucket_normalized_iff hx, hc]
  exact (hleast x hx).mp le_rfl

/-- **A bucket is reached again exactly if it holds a double**, of which the lower bound is then the
least. -/
theorem IsExact.bucket_eq_iff_exists (hc : m.convention = .lowerInclusive) :
    m.bucket estimates x.normalized = i ↔
      ∃ y : Binary64, y.isPositiveFinite = true ∧ bucketStart m.scale i ≤ y.value ∧
        y.value < bucketStart m.scale (i + 1) := by
  rw [hm.bucket_eq_iff hx, hc]
  simp only [Convention.Admits, not_le]
  constructor
  · rintro ⟨hstart, hend⟩
    exact ⟨x, hx, hstart, hend⟩
  · rintro ⟨y, hy, hstart, hend⟩
    refine ⟨(hleast x hx).mp le_rfl, lt_of_le_of_lt ?_ hend⟩
    exact_mod_cast (hleast y hy).mpr hstart

section

variable (hscale : m.scale ≤ 20) (hy : y.IsJustBelow x)
  (hnear : x.value * (1 - 1 / 2 ^ 52) ≤ y.value)
include hscale hy hnear

/-- **The double just below a lower bound lies in the bucket before.** -/
theorem IsExact.bucket_of_isJustBelow : m.bucket estimates y.normalized = i - 1 := by
  have hstart : bucketStart m.scale i ≤ x.value := (hleast x hx).mp le_rfl
  have hbefore := bucketStart_pred_lt hscale (Binary64.value_pos hx) hstart hnear
  have hbelow : ¬ bucketStart m.scale i ≤ y.value := by
    rw [← hleast y hy.isPositiveFinite]
    exact not_le.mpr hy.value_lt
  rw [hm.bucket_eq_iff hy.isPositiveFinite, Int.sub_add_cancel]
  refine ⟨?_, fun h => hbelow h.le⟩
  cases m.convention with
  | lowerInclusive => exact hbefore.le
  | upperInclusive => exact hbefore

/-- The index of a lower bound: that of the bucket, unless the bound is a start that still belongs to
the bucket before. -/
theorem IsExact.bucket_lowerBound :
    (m.convention = .lowerInclusive → m.bucket estimates x.normalized = i) ∧
      (m.convention = .upperInclusive → bucketStart m.scale i = x.value →
        m.bucket estimates x.normalized = i - 1) ∧
      (m.convention = .upperInclusive → bucketStart m.scale i ≠ x.value →
        m.bucket estimates x.normalized = i) := by
  have hstart : bucketStart m.scale i ≤ x.value := (hleast x hx).mp le_rfl
  have hend := lowerBound_lt_bucketStart_succ hscale hx hleast hy hnear
  refine ⟨?_, ?_, ?_⟩
  · intro hc
    rw [hm.bucket_eq_iff hx, hc]
    exact ⟨hstart, not_le.mpr hend⟩
  · intro hc hon
    rw [hm.bucket_eq_iff hx, hc, Int.sub_add_cancel, ← hon]
    exact ⟨(bucketStart_lt_bucketStart_iff _).mpr (by omega), lt_irrefl _⟩
  · intro hc hoff
    rw [hm.bucket_eq_iff hx, hc]
    exact ⟨lt_of_le_of_ne hstart hoff, not_lt.mpr hend.le⟩

end

end

/-- **From a bucket to its lower bound and back.** From the smallest normal number on the way back
ends in the bucket itself, or in the one before if the bound is a start and buckets hold their upper
ends, and the double just below the bound has the index before. Over the whole range, if buckets
hold their lower ends, the way back never ends below the bucket, and in it exactly if it holds a
double. -/
theorem index_lowerBound (hm : Constructed estimates scale c m) (hmin : m.minIndex estimates ≤ i)
    (hmax : i ≤ m.maxIndex estimates) :
    ∃ x : Binary64, m.lowerBound estimates i = .ok x ∧
      (2 ^ (-1022 : ℤ) ≤ x.value →
        (c = .lowerInclusive → m.index estimates x = .ok i) ∧
        (c = .upperInclusive → bucketStart scale i = x.value → m.index estimates x = .ok (i - 1)) ∧
        (c = .upperInclusive → bucketStart scale i ≠ x.value → m.index estimates x = .ok i) ∧
        ∃ y : Binary64, y.IsJustBelow x ∧ m.index estimates y = .ok (i - 1)) ∧
      (c = .lowerInclusive →
        ∃ j : ℤ, m.index estimates x = .ok j ∧ i ≤ j ∧
          (j = i ↔ ∃ y : Binary64, y.isPositiveFinite = true ∧ bucketStart scale i ≤ y.value ∧
            y.value < bucketStart scale (i + 1))) := by
  have hscale := hm.scale_le
  obtain ⟨hexact, rfl, rfl⟩ := hm.isExact
  obtain ⟨x, hbound, hx, hleast⟩ := hexact.lowerBound_eq hmin hmax
  have hindex : m.index estimates x = .ok (m.bucket estimates x.normalized) := by
    rw [index, if_pos hx]
  refine ⟨x, hbound, ?_, ?_⟩
  · intro hnormal
    obtain ⟨y, hy, hnear⟩ := Binary64.exists_isJustBelow hx hnormal
    obtain ⟨hlower, hon, hoff⟩ := hexact.bucket_lowerBound hx hleast hscale hy hnear
    have hbefore := hexact.bucket_of_isJustBelow hx hleast hscale hy hnear
    rw [hindex]
    refine ⟨fun hc => congrArg _ (hlower hc), fun hc hstart => congrArg _ (hon hc hstart),
      fun hc hstart => congrArg _ (hoff hc hstart), y, hy, ?_⟩
    rw [index, if_pos hy.isPositiveFinite, hbefore]
  · intro hc
    exact ⟨_, hindex, hexact.le_bucket_of_lowerInclusive hx hleast hc,
      hexact.bucket_eq_iff_exists hx hleast hc⟩

/-- The smallest normal number starts a bucket of scale 0, the double below it is subnormal. -/
theorem index_lowerBound_minNormal :
    Constructed platformEstimates 0 .upperInclusive ⟨.powers 0, .upperInclusive⟩ ∧
      minIndex platformEstimates ⟨.powers 0, .upperInclusive⟩ ≤ -1022 ∧
      -1022 ≤ maxIndex platformEstimates ⟨.powers 0, .upperInclusive⟩ ∧
      ∃ x y : Binary64,
        lowerBound platformEstimates ⟨.powers 0, .upperInclusive⟩ (-1022) = .ok x ∧
        2 ^ (-1022 : ℤ) ≤ x.value ∧ bucketStart 0 (-1022) = x.value ∧
        Mapping.index platformEstimates ⟨.powers 0, .upperInclusive⟩ x = .ok (-1022 - 1) ∧
        y.IsJustBelow x ∧
        Mapping.index platformEstimates ⟨.powers 0, .upperInclusive⟩ y = .ok (-1022 - 1) := by
  have hm : Constructed platformEstimates 0 .upperInclusive ⟨.powers 0, .upperInclusive⟩ :=
    .powers rfl
  obtain ⟨x, hbound, hnormal, -⟩ := index_lowerBound hm (by decide : _ ≤ (-1022 : ℤ)) (by decide)
  have hvalue : x.value = 2 ^ (-1022 : ℤ) := by
    have hx : lowerBound platformEstimates ⟨.powers 0, .upperInclusive⟩ (-1022)
        = .ok ⟨0x0010000000000000⟩ := by decide
    cases hbound.symm.trans hx
    have hunits : (⟨0x0010000000000000⟩ : Binary64).units = 2 ^ 52 := by decide
    rw [Binary64.value_of_isPositiveFinite (by decide), hunits, Nat.cast_pow, Nat.cast_ofNat,
      ← zpow_natCast, ← zpow_add₀ (by norm_num)]
    rfl
  have hstart : bucketStart 0 (-1022) = x.value := by
    rw [bucketStart_eq_iff (by rw [hvalue]; positivity), hvalue]
    norm_num
  obtain ⟨-, hon, -, y, hy, hbefore⟩ := hnormal hvalue.ge
  exact ⟨hm, by decide, by decide, x, y, hbound, hvalue.ge, hstart, hon rfl hstart, hy, hbefore⟩

end Mapping

end ExponentialHistogram
