/-
ExponentialHistogram.Proofs.Mapping.Resolution — histograms of different
scales fit together.

The starts of a scale are starts of every finer one (`bucketStart_nested`). An
exact mapping is determined by its starts, so going from a fine scale to a
coarse one divides indices by the number of fine buckets in a coarse one,
rounding down (`IsExact.bucket_eq_ediv`), and equal starts have equal lower
bounds (`IsExact.exists_lowerBound_of_start_eq`). Nothing depends on how the
two mappings find their buckets, which is why the law also holds between
whole powers of two and tables, and between built-in tables and derived ones.
-/
import Mathlib
import ExponentialHistogram.Platform
import ExponentialHistogram.Proofs.Mapping.Exact
import ExponentialHistogram.Mapping.Configuration

namespace ExponentialHistogram

/-- A start of a scale is the start at the multiplied index of a finer scale. -/
theorem bucketStart_nested (scale : ℤ) (finer : ℕ) (i : ℤ) :
    bucketStart (scale + finer) (i * 2 ^ finer) = bucketStart scale i := by
  rw [bucketStart, bucketStart, zpow_add₀ (by norm_num), zpow_natCast]
  congr 1
  push_cast
  exact mul_div_mul_right _ _ (by positivity)

namespace Mapping

variable {estimates : Estimates} {fine coarse : Mapping}

/-! ## Exact mappings of two scales -/

/-- **A coarser index is a quotient of the finer one.** -/
theorem IsExact.bucket_eq_ediv (hcoarse : coarse.IsExact estimates) (hfine : fine.IsExact estimates)
    (hconvention : coarse.convention = fine.convention) {finer : ℕ}
    (hscale : fine.scale = coarse.scale + finer) {n : Binary64.Normalized}
    (hn : n.significand < 2 ^ 52) :
    coarse.bucket estimates n = fine.bucket estimates n / 2 ^ finer := by
  refine eq_of_forall_le_iff fun i => ?_
  rw [Int.le_ediv_iff_mul_le (by positivity), hcoarse.le_bucket_iff n hn, hfine.le_bucket_iff n hn,
    hscale, bucketStart_nested, hconvention]

/-- Buckets that start at one number have one lower bound. -/
theorem IsExact.exists_lowerBound_of_start_eq (hcoarse : coarse.IsExact estimates)
    (hfine : fine.IsExact estimates) {i j : ℤ}
    (hstart : bucketStart coarse.scale i = bucketStart fine.scale j)
    (hi : coarse.minIndex estimates ≤ i) (hi' : i ≤ coarse.maxIndex estimates)
    (hj : fine.minIndex estimates ≤ j) (hj' : j ≤ fine.maxIndex estimates) :
    ∃ x : Binary64, coarse.lowerBound estimates i = .ok x ∧
      fine.lowerBound estimates j = .ok x := by
  obtain ⟨x, hx, hxfinite, hxleast⟩ := hcoarse.lowerBound_eq hi hi'
  obtain ⟨y, hy, hyfinite, hyleast⟩ := hfine.lowerBound_eq hj hj'
  -- Each of the two is the least double at or above the common start.
  have hxy : x.value ≤ y.value := by
    rw [hxleast y hyfinite, hstart, ← hyleast y hyfinite]
  have hyx : y.value ≤ x.value := by
    rw [hyleast x hxfinite, ← hstart, ← hxleast x hxfinite]
  obtain rfl : x = y := Binary64.eq_of_value_eq hxfinite hyfinite (le_antisymm hxy hyx)
  exact ⟨x, hx, hy⟩

/-! ## Going to a coarser scale -/

/-- What the default strategy builds is constructed. -/
theorem Constructed.of_build {scale : ℤ} {c : Convention} {cache : Threshold.Cache} {m : Mapping}
    (hcache : cache.Reachable estimates)
    (h : (Configuration.build estimates ⟨scale, default, c⟩ cache).1 = .ok m) :
    Constructed estimates scale c m := by
  unfold Configuration.build at h
  split at h
  · cases h
  · split at h
    · exact .powers h
    · exact .table hcache h

/-- **Going to a coarser scale shifts indices**, by as many places as the scales differ, whatever
kinds of mapping the two are. The index range is shifted as well, and buckets that start at one
number have one lower bound. -/
theorem index_shiftRight {s t : ℤ} {c : Convention} (hst : s < t)
    (hcoarse : Constructed estimates s c coarse) (hfine : Constructed estimates t c fine) :
    (∀ v : Binary64, v.isPositiveFinite = true →
      ∃ i : ℤ, fine.index estimates v = .ok i ∧
        coarse.index estimates v = .ok (i >>> (t - s).toNat)) ∧
    coarse.minIndex estimates = fine.minIndex estimates >>> (t - s).toNat ∧
    coarse.maxIndex estimates = fine.maxIndex estimates >>> (t - s).toNat ∧
    ∀ j : ℤ, coarse.minIndex estimates ≤ j → j ≤ coarse.maxIndex estimates →
      fine.minIndex estimates ≤ j * 2 ^ (t - s).toNat →
      j * 2 ^ (t - s).toNat ≤ fine.maxIndex estimates →
        ∃ x : Binary64, coarse.lowerBound estimates j = .ok x ∧
          fine.lowerBound estimates (j * 2 ^ (t - s).toNat) = .ok x := by
  obtain ⟨hcexact, rfl, rfl⟩ := hcoarse.isExact
  obtain ⟨hfexact, rfl, hconvention⟩ := hfine.isExact
  obtain ⟨finer, hfiner⟩ : ∃ finer : ℕ, (fine.scale - coarse.scale).toNat = finer := ⟨_, rfl⟩
  have hscale : fine.scale = coarse.scale + finer := by omega
  rw [hfiner]
  have hbucket : ∀ v : Binary64, coarse.bucket estimates v.normalized
      = fine.bucket estimates v.normalized >>> finer := by
    intro v
    rw [Int.shiftRight_eq_div_pow, Int.natCast_pow, Nat.cast_ofNat]
    exact hcexact.bucket_eq_ediv hfexact hconvention.symm hscale v.normalized_significand_lt
  refine ⟨?_, hbucket _, hbucket _, ?_⟩
  · intro v hv
    refine ⟨fine.bucket estimates v.normalized, ?_, ?_⟩
    · rw [index, if_pos hv]
    · rw [index, if_pos hv, hbucket]
  · intro j hmin hmax hmin' hmax'
    have hstart : bucketStart coarse.scale j = bucketStart fine.scale (j * 2 ^ finer) := by
      rw [hscale, bucketStart_nested]
    exact hcexact.exists_lowerBound_of_start_eq hfexact hstart hmin hmax hmin' hmax'

/-- From a built-in table to buckets of four powers of two: the smallest double, and the start
`2 ^ -1072`. -/
theorem index_shiftRight_minPositive :
    (-2 : ℤ) < 3 ∧ (∅ : Threshold.Cache).Reachable platformEstimates ∧
    ∃ coarse fine : Mapping,
      (Configuration.build platformEstimates ⟨-2, default, .upperInclusive⟩ ∅).1 = .ok coarse ∧
      (Configuration.build platformEstimates ⟨3, default, .upperInclusive⟩ ∅).1 = .ok fine ∧
      (∃ i : ℤ, fine.index platformEstimates Binary64.minPositive = .ok i ∧
        coarse.index platformEstimates Binary64.minPositive = .ok (i >>> (5 : ℕ))) ∧
      ∃ x : Binary64, coarse.lowerBound platformEstimates (-268) = .ok x ∧
        fine.lowerBound platformEstimates (-268 * 2 ^ 5) = .ok x := by
  obtain ⟨fine, hfine⟩ : ∃ m : Mapping,
      (Configuration.build platformEstimates ⟨3, default, .upperInclusive⟩ ∅).1 = .ok m := ⟨_, rfl⟩
  have hcoarse : (Configuration.build platformEstimates ⟨-2, default, .upperInclusive⟩ ∅).1
      = .ok ⟨.powers 2, .upperInclusive⟩ := rfl
  obtain ⟨hindex, hmin, hmax, hbound⟩ :=
    index_shiftRight (by decide : (-2 : ℤ) < 3) (.of_build .empty hcoarse) (.of_build .empty hfine)
  have hleast : minIndex platformEstimates ⟨.powers 2, .upperInclusive⟩ = -269 := by decide
  have hgreatest : maxIndex platformEstimates ⟨.powers 2, .upperInclusive⟩ = 255 := by decide
  have hfive : ((3 : ℤ) - -2).toNat = 5 := by decide
  rw [hfive] at hindex hmin hmax hbound
  rw [hleast, Int.shiftRight_eq_div_pow] at hmin
  rw [hgreatest, Int.shiftRight_eq_div_pow] at hmax
  refine ⟨by decide, .empty, _, fine, hcoarse, hfine, hindex Binary64.minPositive (by decide), ?_⟩
  exact hbound (-268) (by rw [hleast]; decide) (by rw [hgreatest]; decide) (by omega) (by omega)

end Mapping

end ExponentialHistogram
