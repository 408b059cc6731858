/-
ExponentialHistogram.Proofs.Mapping.Exact — what a mapping has to get right,
and that every constructed mapping does.

`IsExact` is the interface between the partitions and the statements about
mappings: the bucket of a number and the boundary of a bucket are related to
the real starts, and nothing else is said. A partition into whole powers of
two is exact, one by an exact table is (`isExact_powers`, `isExact_table`),
and so is what construction returns at any scale (`Constructed.isExact`).

From the interface alone it follows that no bucket of a double lies outside
the index range (`IsExact.bucket_mem`) and that a lower bound is the least
double at or above the start (`IsExact.lowerBound_eq`): rounding to 53 bits
and then to a double is one rounding, because both are adjoint to the doubles.
-/
import Mathlib
import ExponentialHistogram.Proofs.Mapping.Start
import ExponentialHistogram.Proofs.Threshold.Cache
import ExponentialHistogram.Mapping.Basic

namespace ExponentialHistogram

open Binary64 (Normalized minPositive maxFinite)

namespace Mapping

variable {estimates : Estimates} {m : Mapping}

/-- Buckets and boundaries agree with the real starts. -/
structure IsExact (estimates : Estimates) (m : Mapping) : Prop where
  le_bucket_iff : ∀ n : Normalized, n.significand < 2 ^ 52 → ∀ i : ℤ,
    i ≤ m.bucket estimates n ↔ m.convention.Admits (bucketStart m.scale i) n.value
  boundary_le_iff : ∀ n : Normalized, n.significand < 2 ^ 52 → ∀ i : ℤ,
    (m.boundary estimates i).value ≤ n.value ↔ bucketStart m.scale i ≤ n.value
  boundary_significand_lt : ∀ i : ℤ, (m.boundary estimates i).significand < 2 ^ 52

/-! ## Whole powers of two -/

theorem isExact_powers (estimates : Estimates) (shift : ℕ) (c : Convention) :
    IsExact estimates ⟨.powers shift, c⟩ where
  le_bucket_iff n hn i := by
    have hlast : ∀ j : ℤ, j ≤ n.exponent ↔ (2 : ℚ) ^ j ≤ n.value ^ 2 ^ 0 := by
      intro j
      rw [pow_zero, pow_one, Normalized.two_zpow_le_value_iff hn]
    have hcorrection := le_sub_correction_iff hn hlast c (i * 2 ^ shift)
    rw [pow_zero, pow_one] at hcorrection
    simp only [scale, Partition.scale, bucket]
    rw [admits_bucketStart_coarse c n.value_pos, ← hcorrection,
      Int.le_ediv_iff_mul_le (by positivity)]
  boundary_le_iff n hn i := by
    have hstart := admits_bucketStart_coarse .lowerInclusive n.value_pos shift i
    simp only [Convention.Admits] at hstart
    simp only [scale, Partition.scale, boundary]
    rw [hstart, Normalized.value]
    simp
  boundary_significand_lt i := by simp [boundary]

/-! ## Tables -/

/-- The index of a fine scale, as a power of two and a position in it. -/
theorem exists_split_index (s : ℕ) (i : ℤ) :
    ∃ position : ℕ, position < 2 ^ s ∧ (i % 2 ^ s).toNat = position ∧
      i = i / 2 ^ s * 2 ^ s + position := by
  have hpos : (0 : ℤ) < 2 ^ s := by positivity
  have hmod := Int.emod_nonneg i hpos.ne'
  have hlt := Int.emod_lt_of_pos i hpos
  have hdiv := Int.ediv_mul_add_emod i (2 ^ s)
  have hcast : (((i % 2 ^ s).toNat : ℕ) : ℤ) = i % 2 ^ s := Int.toNat_of_nonneg hmod
  refine ⟨(i % 2 ^ s).toNat, ?_, rfl, by omega⟩
  have hnat : (((i % 2 ^ s).toNat : ℕ) : ℤ) < ((2 ^ s : ℕ) : ℤ) := by push_cast; omega
  exact_mod_cast hnat

/-- Indices are ordered like the pairs they are made of. -/
theorem split_index_le_iff {s p q : ℕ} (hp : p < 2 ^ s) (hq : q < 2 ^ s) (d e : ℤ) :
    d * 2 ^ s + p ≤ e * 2 ^ s + q ↔ d < e ∨ d = e ∧ p ≤ q := by
  have hp' : (p : ℤ) < 2 ^ s := by exact_mod_cast hp
  have hq' : (q : ℤ) < 2 ^ s := by exact_mod_cast hq
  rcases lt_trichotomy d e with hlt | rfl | hgt
  · have := binade_le hlt s
    omega
  · omega
  · have := binade_le hgt s
    omega

/-- The last start not above a number, from the last position that its significand attains. -/
theorem le_index_iff {n : Normalized} (hn : n.significand < 2 ^ 52) {s position : ℕ}
    (h : Threshold.IsLastAttained (2 ^ 52 + n.significand) s position) (j : ℤ) :
    j ≤ n.exponent * 2 ^ s + position ↔ (2 : ℚ) ^ j ≤ n.value ^ 2 ^ s := by
  obtain ⟨k, hk, -, hsplit⟩ := exists_split_index s j
  rw [hsplit, split_index_le_iff hk h.lt, two_zpow_le_value_pow_iff hn hk, h.le_iff k hk]

theorem isExact_table (estimates : Estimates) {t : Threshold.Table} (ht : t.IsExact)
    (c : Convention) : IsExact estimates ⟨.table t, c⟩ where
  le_bucket_iff n hn i := by
    have hlast := le_index_iff hn (ht.isLastAttained n.significand)
    simp only [scale, Partition.scale, bucket]
    rw [admits_bucketStart_fine c n.value_pos, ← le_sub_correction_iff hn hlast]
  boundary_le_iff n hn i := by
    obtain ⟨k, hk, hmod, hsplit⟩ := exists_split_index t.scale i
    have hstart := admits_bucketStart_fine .lowerInclusive n.value_pos t.scale i
    simp only [Convention.Admits] at hstart
    simp only [scale, Partition.scale, boundary]
    rw [hstart, hmod, Normalized.value_le_value_iff (ht.entry_lt k hk) hn]
    conv_rhs => rw [hsplit]
    rw [two_zpow_le_value_pow_iff hn hk, ht.entry_le_iff hk]
  boundary_significand_lt i := by
    obtain ⟨k, hk, hmod, -⟩ := exists_split_index t.scale i
    simp only [boundary, hmod]
    exact ht.entry_lt k hk

/-! ## Construction -/

/-- The mappings that construction returns for a scale and a convention, by powers of two or by a
table. The table comes from the cache as earlier requests have left it, or was derived while others
used the cache. -/
inductive Constructed (estimates : Estimates) (scale : ℤ) (c : Convention) : Mapping → Prop where
  | powers {m : Mapping} : ofPowers scale c = .ok m → Constructed estimates scale c m
  | table {cache : Threshold.Cache} {m : Mapping} : cache.Reachable estimates →
      (ofScale estimates scale c cache).1 = .ok m → Constructed estimates scale c m
  | raced {cache : Threshold.Cache} {t : Threshold.Table} : cache.Reachable estimates →
      Threshold.Table.derive estimates scale = .ok t →
        Constructed estimates scale c (ofTable (cache.publish t).1 c)

/-- What construction returns has one of two partitions, depending on the scale. -/
theorem Constructed.powers_or_table {scale : ℤ} {c : Convention}
    (h : Constructed estimates scale c m) :
    (scale ∈ ScaleRange.coarse ∧ m = ⟨.powers scale.natAbs, c⟩) ∨
      (scale ∈ ScaleRange.fine ∧ ∃ t : Threshold.Table, (t.scale : ℤ) = scale ∧ t.IsExact ∧
        m = ofTable t c) := by
  cases h with
  | powers h =>
    cases hrequire : ScaleRange.coarse.require scale with
    | error e => rw [ofPowers, hrequire] at h; cases h
    | ok u =>
      rw [ofPowers, hrequire] at h
      cases h
      exact Or.inl ⟨ScaleRange.require_eq_ok_iff.mp hrequire, rfl⟩
  | @table cache _ hcache h =>
    have hrequest := (hcache.sound.request estimates scale).2
    simp only [ofScale] at h
    cases htable : (cache.request estimates scale).1 with
    | error e => rw [htable] at h; cases h
    | ok t =>
      rw [htable] at h
      cases h
      obtain ⟨hmem, hscale, hexact⟩ := hrequest t htable
      exact Or.inr ⟨hmem, t, hscale, hexact, rfl⟩
  | raced hcache h =>
    obtain ⟨hmem, hscale, hexact⟩ := Threshold.Table.isExact_of_derive h
    obtain ⟨hpublished, hpexact, -⟩ := hcache.sound.publish hexact
    exact Or.inr ⟨hmem, _, by omega, hpexact, rfl⟩

/-- **What construction returns is exact**, and of the scale and the convention asked for. -/
theorem Constructed.isExact {scale : ℤ} {c : Convention} (h : Constructed estimates scale c m) :
    m.IsExact estimates ∧ m.scale = scale ∧ m.convention = c := by
  rcases h.powers_or_table with ⟨hmem, rfl⟩ | ⟨-, t, hscale, hexact, rfl⟩
  · have hbounds : -10 ≤ scale ∧ scale ≤ 0 := hmem
    refine ⟨isExact_powers estimates _ c, ?_, rfl⟩
    simp only [Mapping.scale, Partition.scale]
    omega
  · exact ⟨isExact_table estimates hexact c, hscale, rfl⟩

/-! ## What follows from exactness -/

section

variable (hm : m.IsExact estimates)
include hm

theorem IsExact.le_bucket_normalized_iff {v : Binary64} (hv : v.isPositiveFinite = true) (i : ℤ) :
    i ≤ m.bucket estimates v.normalized ↔
      m.convention.Admits (bucketStart m.scale i) v.value := by
  rw [hm.le_bucket_iff _ v.normalized_significand_lt, Binary64.value_normalized hv]

/-- Indices never decrease with the value. -/
theorem IsExact.bucket_mono {v w : Binary64} (hv : v.isPositiveFinite = true)
    (hw : w.isPositiveFinite = true) (h : v.value ≤ w.value) :
    m.bucket estimates v.normalized ≤ m.bucket estimates w.normalized := by
  have hadmits := (hm.le_bucket_normalized_iff hv _).mp le_rfl
  rw [hm.le_bucket_normalized_iff hw]
  exact hadmits.trans_le (by exact_mod_cast h)

/-- The buckets of the doubles lie in the index range. -/
theorem IsExact.bucket_mem {v : Binary64} (hv : v.isPositiveFinite = true) :
    m.minIndex estimates ≤ m.bucket estimates v.normalized ∧
      m.bucket estimates v.normalized ≤ m.maxIndex estimates :=
  ⟨hm.bucket_mono Binary64.isPositiveFinite_minPositive hv (Binary64.value_minPositive_le hv),
    hm.bucket_mono hv Binary64.isPositiveFinite_maxFinite (Binary64.value_le_maxFinite hv)⟩

/-- In the index range every bucket starts at or below the largest double. -/
theorem IsExact.bucketStart_le_maxFinite {i : ℤ} (hi : i ≤ m.maxIndex estimates) :
    bucketStart m.scale i ≤ maxFinite.value :=
  ((hm.le_bucket_normalized_iff Binary64.isPositiveFinite_maxFinite i).mp hi).le

/-- **A lower bound is the least double at or above the start.** The doubles at or above it are
those at or above the start. -/
theorem IsExact.lowerBound_eq {i : ℤ} (hmin : m.minIndex estimates ≤ i)
    (hmax : i ≤ m.maxIndex estimates) :
    ∃ x : Binary64, m.lowerBound estimates i = .ok x ∧ x.isPositiveFinite = true ∧
      ∀ y : Binary64, y.isPositiveFinite = true →
        (x.value ≤ y.value ↔ bucketStart m.scale i ≤ y.value) := by
  have hsig := hm.boundary_significand_lt i
  have hboundary : ∀ y : Binary64, y.isPositiveFinite = true →
      ((m.boundary estimates i).value ≤ y.value ↔ bucketStart m.scale i ≤ y.value) := by
    intro y hy
    rw [← Binary64.value_normalized hy, hm.boundary_le_iff _ y.normalized_significand_lt]
  have hexponent : (m.boundary estimates i).exponent ≤ Binary64.maxNormalExponent := by
    have hle := (hboundary maxFinite Binary64.isPositiveFinite_maxFinite).mpr
      (hm.bucketStart_le_maxFinite hmax)
    have hlast := (Binary64.normalized_exponent_mem Binary64.isPositiveFinite_maxFinite).2
    rw [← Binary64.value_normalized Binary64.isPositiveFinite_maxFinite,
      Normalized.value_le_value_iff hsig maxFinite.normalized_significand_lt] at hle
    omega
  obtain ⟨hfinite, hceil⟩ := Normalized.ceilPositive_le_iff hsig hexponent
  refine ⟨(m.boundary estimates i).ceilPositive, ?_, hfinite, ?_⟩
  · rw [lowerBound, if_pos ⟨hmin, hmax⟩]
  · intro y hy
    rw [hceil y hy, hboundary y hy]

end

end Mapping

end ExponentialHistogram
