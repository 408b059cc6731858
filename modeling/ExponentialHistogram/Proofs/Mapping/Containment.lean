/-
ExponentialHistogram.Proofs.Mapping.Containment — indices and lower bounds
are those of the mathematical buckets.

Three statements about every constructed mapping, at all scales:

* `index_le_iff_lowerBound`: the index of a value and the lower bound of a
  bucket are adjoint, which is containment as an equivalence;
* `index_unique`: under the lower-inclusive convention the index is the one
  integer whose bucket holds the value, in exact arithmetic, and every other
  double is refused;
* `lowerBound_least`: the lower bound is the least double at or above the
  start of the bucket.

Each of them reads off the interface `IsExact`; where they differ is in how
they speak about a start, as a real number or by powers of rational numbers.
-/
import Mathlib
import ExponentialHistogram.Platform
import ExponentialHistogram.Proofs.Mapping.Exact

namespace ExponentialHistogram

open Binary64 (minPositive maxFinite)

/-! ## Buckets in exact arithmetic -/

/-- The value is not below the start of the bucket: `2 ^ index ≤ value ^ (2 ^ scale)`, and at a
negative scale `2 ^ (index * 2 ^ -scale) ≤ value`. -/
def ReachesStart (scale index : ℤ) (value : ℚ) : Prop :=
  if 0 ≤ scale then (2 : ℚ) ^ index ≤ value ^ 2 ^ scale.toNat
  else (2 : ℚ) ^ (index * 2 ^ (-scale).toNat) ≤ value

/-- The value is below the start of the bucket. -/
def BelowStart (scale index : ℤ) (value : ℚ) : Prop :=
  if 0 ≤ scale then value ^ 2 ^ scale.toNat < (2 : ℚ) ^ index
  else value < (2 : ℚ) ^ (index * 2 ^ (-scale).toNat)

/-- The lower-inclusive bucket: from its start up to the start of the next one. -/
def InBucket (scale index : ℤ) (value : ℚ) : Prop :=
  ReachesStart scale index value ∧ BelowStart scale (index + 1) value

theorem reachesStart_iff {v : ℚ} (hv : 0 < v) (scale index : ℤ) :
    ReachesStart scale index v ↔ bucketStart scale index ≤ v := by
  rw [bucketStart_le_iff hv, ReachesStart]
  split
  · rename_i hscale
    rw [Int.toNat_of_nonpos (by omega : -scale ≤ 0), pow_zero, mul_one]
  · rename_i hscale
    rw [Int.toNat_of_nonpos (by omega : scale ≤ 0), pow_zero, pow_one]

theorem belowStart_iff (scale index : ℤ) (v : ℚ) :
    BelowStart scale index v ↔ ¬ ReachesStart scale index v := by
  rw [BelowStart, ReachesStart]
  split <;> rw [not_le]

/-- The value has passed the lower bound of a bucket that starts at `start`: it lies in the bucket
or above it. A value that is the lower bound itself is in an upper-inclusive bucket only if the bound
was rounded up. -/
def Convention.Passed (c : Convention) (start : ℝ) (bound value : Binary64) : Prop :=
  match c with
  | .lowerInclusive => bound.value ≤ value.value
  | .upperInclusive => bound.value < value.value ∨ bound = value ∧ start < value.value

/-- The value ends before the next bucket, whose lower bound is given. -/
def Convention.EndsBefore (c : Convention) (value bound : Binary64) : Prop :=
  match c with
  | .lowerInclusive => value.value < bound.value
  | .upperInclusive => value.value ≤ bound.value

namespace Mapping

variable {estimates : Estimates} {scale : ℤ} {c : Convention} {m : Mapping}

theorem index_of_isPositiveFinite (m : Mapping) {v : Binary64} (hv : v.isPositiveFinite = true) :
    m.index estimates v = .ok (m.bucket estimates v.normalized) := by
  rw [index, if_pos hv]

/-- Passing the lower bound is passing the start. -/
theorem passed_iff_admits {start : ℝ} {x v : Binary64} (hx : x.isPositiveFinite = true)
    (hv : v.isPositiveFinite = true)
    (hleast : ∀ y : Binary64, y.isPositiveFinite = true → (x.value ≤ y.value ↔ start ≤ y.value)) :
    c.Passed start x v ↔ c.Admits start (v.value : ℝ) := by
  cases c with
  | lowerInclusive => exact hleast v hv
  | upperInclusive =>
    have hstart : start ≤ x.value := (hleast x hx).mp le_rfl
    simp only [Convention.Passed, Convention.Admits]
    constructor
    · rintro (hlt | ⟨-, hlt⟩)
      · exact lt_of_le_of_lt hstart (by exact_mod_cast hlt)
      · exact hlt
    · intro hlt
      rcases lt_or_eq_of_le ((hleast v hv).mpr hlt.le) with hbelow | heq
      · exact Or.inl hbelow
      · exact Or.inr ⟨Binary64.eq_of_value_eq hx hv heq, hlt⟩

theorem endsBefore_of_not_passed {start : ℝ} {x v : Binary64} (h : ¬ c.Passed start x v) :
    c.EndsBefore v x := by
  cases c with
  | lowerInclusive => exact not_le.mp h
  | upperInclusive => exact not_lt.mp fun hlt => h (Or.inl hlt)

/-- **Containment.** A value with index `j` has passed the lower bound of bucket `i` exactly if
`i ≤ j`. So it lies in the bucket of its index, before the next one, and indices never decrease. -/
theorem index_le_iff_lowerBound (hm : Constructed estimates scale c m) {v : Binary64}
    (hv : v.isPositiveFinite = true) :
    ∃ j : ℤ, m.index estimates v = .ok j ∧ m.minIndex estimates ≤ j ∧ j ≤ m.maxIndex estimates ∧
      (∀ i : ℤ, m.minIndex estimates ≤ i → i ≤ m.maxIndex estimates →
        ∃ x : Binary64, m.lowerBound estimates i = .ok x ∧
          (i ≤ j ↔ c.Passed (bucketStart scale i) x v)) ∧
      (∃ x : Binary64, m.lowerBound estimates j = .ok x ∧ x.value ≤ v.value) ∧
      (j + 1 ≤ m.maxIndex estimates →
        ∃ x : Binary64, m.lowerBound estimates (j + 1) = .ok x ∧ c.EndsBefore v x) ∧
      (∀ (w : Binary64) (k : ℤ), v.value ≤ w.value → m.index estimates w = .ok k → j ≤ k) := by
  obtain ⟨hexact, rfl, rfl⟩ := hm.isExact
  obtain ⟨hmin, hmax⟩ := hexact.bucket_mem hv
  have hpassed : ∀ i : ℤ, m.minIndex estimates ≤ i → i ≤ m.maxIndex estimates →
      ∃ x : Binary64, m.lowerBound estimates i = .ok x ∧
        (i ≤ m.bucket estimates v.normalized ↔
          m.convention.Passed (bucketStart m.scale i) x v) := by
    intro i hi hi'
    obtain ⟨x, hbound, hx, hleast⟩ := hexact.lowerBound_eq hi hi'
    refine ⟨x, hbound, ?_⟩
    rw [passed_iff_admits hx hv hleast, hexact.le_bucket_normalized_iff hv]
  refine ⟨m.bucket estimates v.normalized, m.index_of_isPositiveFinite hv, hmin, hmax, hpassed,
    ?_, ?_, ?_⟩
  · obtain ⟨x, hbound, -, hleast⟩ := hexact.lowerBound_eq hmin hmax
    have hadmits := (hexact.le_bucket_normalized_iff hv _).mp le_rfl
    exact ⟨x, hbound, (hleast v hv).mpr hadmits.le⟩
  · intro hnext
    obtain ⟨x, hbound, hiff⟩ := hpassed _ (by omega) hnext
    exact ⟨x, hbound, endsBefore_of_not_passed (mt hiff.mpr (by omega))⟩
  · intro w k hvw hk
    by_cases hw : w.isPositiveFinite = true
    · rw [m.index_of_isPositiveFinite hw] at hk
      cases hk
      exact hexact.bucket_mono hv hw hvw
    · rw [index, if_neg hw] at hk
      cases hk

/-- The smallest double, in the table of scale 1. -/
theorem index_le_iff_lowerBound_minPositive :
    ∃ m : Mapping, (ofScale platformEstimates 1 .upperInclusive ∅).1 = .ok m ∧
      minPositive.isPositiveFinite = true ∧
      ∃ j : ℤ, m.index platformEstimates minPositive = .ok j ∧
        m.minIndex platformEstimates ≤ j ∧ j ≤ m.maxIndex platformEstimates ∧
        ∀ i : ℤ, m.minIndex platformEstimates ≤ i → i ≤ m.maxIndex platformEstimates →
          ∃ x : Binary64, m.lowerBound platformEstimates i = .ok x ∧
            (i ≤ j ↔ x.value < minPositive.value ∨
              x = minPositive ∧ bucketStart 1 i < minPositive.value) := by
  have hm : ∃ m : Mapping, (ofScale platformEstimates 1 .upperInclusive ∅).1 = .ok m := ⟨_, rfl⟩
  obtain ⟨m, hm⟩ := hm
  obtain ⟨j, hj, hmin, hmax, hpassed, -⟩ :=
    index_le_iff_lowerBound (.table .empty hm) (by decide : minPositive.isPositiveFinite = true)
  exact ⟨m, hm, by decide, j, hj, hmin, hmax, hpassed⟩

/-- **The index is the mathematical bucket.** Zeros, negative numbers, infinities and NaNs are
refused; any other double gets the one index whose bucket holds it. -/
theorem index_unique (hm : Constructed estimates scale .lowerInclusive m) (v : Binary64) :
    (m.index estimates v = .error (.notPositiveFinite v) ↔
      v.isZero = true ∨ v.isNegative = true ∨ v.isInfinite = true ∨ v.isNaN = true) ∧
    (¬ (v.isZero = true ∨ v.isNegative = true ∨ v.isInfinite = true ∨ v.isNaN = true) →
      ∃ i : ℤ, m.index estimates v = .ok i ∧ ∀ j : ℤ, InBucket scale j v.value ↔ j = i) := by
  obtain ⟨hexact, rfl, hconvention⟩ := hm.isExact
  rw [← Binary64.isPositiveFinite_eq_false_iff]
  by_cases hv : v.isPositiveFinite = true
  · have hindex : m.index estimates v = .ok (m.bucket estimates v.normalized) :=
      m.index_of_isPositiveFinite hv
    have hreaches : ∀ j : ℤ, ReachesStart m.scale j v.value ↔
        j ≤ m.bucket estimates v.normalized := by
      intro j
      rw [reachesStart_iff (Binary64.value_pos hv), hexact.le_bucket_normalized_iff hv,
        hconvention]
      rfl
    refine ⟨by simp [hindex, hv], fun _ => ⟨_, hindex, ?_⟩⟩
    intro j
    rw [InBucket, belowStart_iff, hreaches, hreaches]
    omega
  · simp [index, hv]

/-- The largest double, in buckets of 16 powers of two. -/
theorem index_unique_maxFinite :
    Constructed platformEstimates (-4) .lowerInclusive ⟨.powers 4, .lowerInclusive⟩ ∧
      ∃ i : ℤ, Mapping.index platformEstimates ⟨.powers 4, .lowerInclusive⟩ maxFinite = .ok i ∧
        ∀ j : ℤ, InBucket (-4) j maxFinite.value ↔ j = i := by
  have hm : Constructed platformEstimates (-4) .lowerInclusive ⟨.powers 4, .lowerInclusive⟩ :=
    .powers rfl
  exact ⟨hm, (index_unique hm maxFinite).2 (by decide)⟩

/-- **A lower bound is the least double of its half line**: the least positive finite double at or
above `2 ^ (index / 2 ^ scale)`, as a real number and in exact arithmetic. -/
theorem lowerBound_least (hm : Constructed estimates scale c m) {i : ℤ}
    (hmin : m.minIndex estimates ≤ i) (hmax : i ≤ m.maxIndex estimates) :
    ∃ x : Binary64, m.lowerBound estimates i = .ok x ∧ x.isPositiveFinite = true ∧
      bucketStart scale i ≤ x.value ∧ ReachesStart scale i x.value ∧
      ∀ y : Binary64, y.isPositiveFinite = true → y.value < x.value →
        y.value < bucketStart scale i ∧ ¬ ReachesStart scale i y.value := by
  obtain ⟨hexact, rfl, rfl⟩ := hm.isExact
  obtain ⟨x, hbound, hx, hleast⟩ := hexact.lowerBound_eq hmin hmax
  have hstart : bucketStart m.scale i ≤ x.value := (hleast x hx).mp le_rfl
  refine ⟨x, hbound, hx, hstart, (reachesStart_iff (Binary64.value_pos hx) _ _).mpr hstart, ?_⟩
  intro y hy hlt
  have hnot : ¬ bucketStart m.scale i ≤ y.value := by
    rw [← hleast y hy]
    exact not_le.mpr hlt
  exact ⟨not_le.mp hnot, by rwa [reachesStart_iff (Binary64.value_pos hy)]⟩

/-- The lowest bucket of scale 0, which starts below every double. -/
theorem lowerBound_least_clamped :
    Constructed platformEstimates 0 .upperInclusive ⟨.powers 0, .upperInclusive⟩ ∧
      Mapping.minIndex platformEstimates ⟨.powers 0, .upperInclusive⟩ ≤ -1075 ∧
      -1075 ≤ Mapping.maxIndex platformEstimates ⟨.powers 0, .upperInclusive⟩ ∧
      ∃ x : Binary64,
        Mapping.lowerBound platformEstimates ⟨.powers 0, .upperInclusive⟩ (-1075) = .ok x ∧
          x.isPositiveFinite = true ∧ bucketStart 0 (-1075) ≤ x.value ∧
          ReachesStart 0 (-1075) x.value ∧
          ∀ y : Binary64, y.isPositiveFinite = true → y.value < x.value →
            y.value < bucketStart 0 (-1075) ∧ ¬ ReachesStart 0 (-1075) y.value := by
  have hm : Constructed platformEstimates 0 .upperInclusive ⟨.powers 0, .upperInclusive⟩ :=
    .powers rfl
  exact ⟨hm, by decide, by decide, lowerBound_least hm (by decide) (by decide)⟩

end Mapping

end ExponentialHistogram
