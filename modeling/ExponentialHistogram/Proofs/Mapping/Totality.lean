/-
ExponentialHistogram.Proofs.Mapping.Totality — every index has an answer, and
nothing on the way to it fails.

The lower bound of a bucket, written once more for an index of 64 bits and
with operations that fail: shifts and sums keep to their words, a table is only
read at its positions, and a double is only put together from an exponent and a
significand that it can have (`Checked.lowerBound?`). The one guard in front of
all of this is the index range, so everything has to follow from the two
indices at its ends.

Where they come from an exact mapping they are known by what the smallest and
the largest double have passed (`HasExactRange.bounds`): no bucket in range
starts at `2 ^ 1024` or above, and no bucket but the first one ends below
`2 ^ -1074`. For a mapping by logarithm the exact range is assumed, and then
nothing is asked of its estimates, neither of the one that a walk starts from
nor of the one that stands in if the walk gives up.
-/
import Mathlib
import ExponentialHistogram.Mapping.Configuration
import ExponentialHistogram.Platform
import ExponentialHistogram.Proofs.Binary64.Words
import ExponentialHistogram.Proofs.Mapping.Agreement
import ExponentialHistogram.Proofs.Threshold.CheckedSearch

namespace ExponentialHistogram

open Binary64 (Normalized minPositive maxFinite minSubnormalExponent)

/-! ## The lower bound with checks -/

namespace Checked

open Threshold.Checked (int64? int64?_eq_some bind_eq_of_eq_some)
open Binary64.Checked (int32? unsigned? unsigned?_eq_some ceil?)

/-- A shift to the left, by less than the width. -/
def shiftLeft64? (n : Int) (count : Nat) : Option Int := do
  guard (count < 64)
  int64? (n * 2 ^ count)

/-- A shift to the right, by less than the width. It rounds down. -/
def shiftRight64? (n : Int) (count : Nat) : Option Int := do
  guard (count < 64)
  return n >>> count

/-- The lowest bits of an index. -/
def lowBits? (index : Int64) (count : Nat) : Option Nat := do
  let past ← shiftLeft64? 1 count
  let mask ← int64? (past - 1)
  unsigned? (index &&& Int64.ofInt mask).toInt

/-- An unsigned word of 64 bits. -/
def word64? (n : Nat) : Option (BitVec 64) := do
  let word ← Threshold.Checked.nat64? n
  return BitVec.ofNat 64 word

/-- The exponent of the boundary at which a bucket starts. -/
def exponent? (index : Int64) : Partition → Option Int
  | .powers shift => shiftLeft64? index.toInt shift
  | .table t => shiftRight64? index.toInt t.scale
  | .logarithm scale => shiftRight64? index.toInt scale

/-- The significand of the boundary at which a bucket starts. -/
def significand? (estimates : Estimates) (index : Int64) : Partition → Option Nat
  | .powers _ => some 0
  | .table t => do
    let position ← lowBits? index t.scale
    t.entry? position
  | .logarithm scale => do
    let position ← lowBits? index scale
    let estimate := estimates.byExp scale position % 2 ^ 52
    let found ← Threshold.Checked.seek? scale position estimate
    return found.getD estimate

/-- The lower bound of a bucket, or that the index is out of range, unless something fails. -/
def lowerBound? (estimates : Estimates) (m : Mapping) (index : Int64) :
    Option (Except MappingError Binary64) := do
  let least ← int64? (m.minIndex estimates)
  let greatest ← int64? (m.maxIndex estimates)
  if least ≤ index.toInt ∧ index.toInt ≤ greatest then
    let exponent ← exponent? index m.partition
    if exponent < minSubnormalExponent then
      return .ok minPositive
    let significand ← significand? estimates index m.partition
    let narrow ← int32? exponent
    let word ← word64? significand
    let bound ← ceil? narrow word
    return .ok bound
  else return .error (.indexOutOfRange index.toInt least greatest)

/-! ## Indices in words -/

variable {count : Nat}

theorem shiftLeft64?_eq_some {n : Int} (hcount : count < 64) (hlow : -2 ^ 63 ≤ n * 2 ^ count)
    (hhigh : n * 2 ^ count < 2 ^ 63) : shiftLeft64? n count = some (n * 2 ^ count) := by
  rw [shiftLeft64?, guard, if_pos hcount]
  exact int64?_eq_some hlow hhigh

theorem shiftRight64?_eq_some (n : Int) (hcount : count < 64) :
    shiftRight64? n count = some (n / 2 ^ count) := by
  rw [shiftRight64?, guard, if_pos hcount, Int.shiftRight_eq_div_pow, Int.natCast_pow,
    Nat.cast_ofNat]
  rfl

/-- Masking an index is taking its remainder, whatever its sign. -/
theorem toInt_and_mask (index : Int64) (hcount : count < 63) :
    (index &&& Int64.ofInt (2 ^ count - 1)).toInt = index.toInt % 2 ^ count := by
  have hpow : 2 ^ count ≤ 2 ^ 62 := Nat.pow_le_pow_right (by decide) (by omega)
  have hmask : (Int64.ofInt (2 ^ count - 1)).toBitVec = BitVec.ofNat 64 (2 ^ count - 1) := by
    rw [Int64.toBitVec_ofInt, ← BitVec.ofInt_natCast, Nat.cast_sub Nat.one_le_two_pow]
    push_cast
    rfl
  have hlow : (index &&& Int64.ofInt (2 ^ count - 1)).toBitVec.toNat
      = index.toBitVec.toNat % 2 ^ count := by
    rw [Int64.toBitVec_and, hmask, BitVec.toNat_and, BitVec.toNat_ofNat,
      Nat.mod_eq_of_lt (by omega), Nat.and_two_pow_sub_one_eq_mod]
  have hlt := Nat.mod_lt index.toBitVec.toNat (Nat.two_pow_pos count)
  -- The signed and the unsigned reading differ by a multiple of `2 ^ 64`.
  have hdvd : ((2 ^ count : ℕ) : ℤ) ∣ ((2 ^ 64 : ℕ) : ℤ) := by
    exact_mod_cast pow_dvd_pow 2 (by omega)
  calc (index &&& Int64.ofInt (2 ^ count - 1)).toInt
      = (index.toBitVec.toNat % 2 ^ count : ℕ) := by
        rw [← Int64.toInt_toBitVec, BitVec.toInt_eq_toNat_of_lt (by omega), hlow]
    _ = index.toInt % ((2 ^ count : ℕ) : ℤ) := by
        rw [← Int64.toInt_toBitVec, BitVec.toInt_eq_toNat_bmod, ← Int.emod_emod_of_dvd _ hdvd,
          Int.bmod_emod, Int.emod_emod_of_dvd _ hdvd, Int.natCast_emod]
    _ = index.toInt % 2 ^ count := by rw [Int.natCast_pow, Nat.cast_ofNat]

theorem lowBits?_eq (index : Int64) (hcount : count < 63) :
    lowBits? index count = some (index.toInt % 2 ^ count).toNat := by
  have hpow : (2 : ℤ) ^ count ≤ 2 ^ 62 := pow_le_pow_right₀ (by norm_num) (by omega)
  have hpos : (0 : ℤ) < 2 ^ count := by positivity
  have hpast : shiftLeft64? 1 count = some (1 * 2 ^ count) :=
    shiftLeft64?_eq_some (by omega) (by omega) (by omega)
  rw [lowBits?, bind_eq_of_eq_some hpast, one_mul,
    bind_eq_of_eq_some (int64?_eq_some (by omega) (by omega)), toInt_and_mask index hcount]
  exact unsigned?_eq_some (Int.emod_nonneg _ hpos.ne')

theorem word64?_eq_some {n : Nat} (h : n < 2 ^ 64) : word64? n = some (BitVec.ofNat 64 n) :=
  bind_eq_of_eq_some (if_pos h) _

end Checked

namespace Mapping

variable {estimates : Estimates} {m : Mapping}

/-! ## The index range -/

/-- The index range is that of an exact mapping of the same scale and convention. -/
def HasExactRange (estimates : Estimates) (m : Mapping) : Prop :=
  ∃ exact : Mapping, exact.IsExact estimates ∧ exact.scale = m.scale ∧
    exact.convention = m.convention ∧ m.minIndex estimates = exact.minIndex estimates ∧
    m.maxIndex estimates = exact.maxIndex estimates

theorem IsExact.hasExactRange (hm : m.IsExact estimates) : m.HasExactRange estimates :=
  ⟨m, hm, rfl, rfl, rfl, rfl⟩

end Mapping

/-- A start against a power of two, as a comparison of whole numbers. -/
theorem bucketStart_lt_two_zpow_iff (scale index e : ℤ) :
    bucketStart scale index < ((2 ^ e : ℚ) : ℝ) ↔
      index * 2 ^ (-scale).toNat < e * 2 ^ scale.toNat := by
  rw [bucketStart_lt_iff (by positivity), two_zpow_pow, zpow_lt_zpow_iff_right₀ (by norm_num)]

theorem Binary64.value_minPositive : minPositive.value = 2 ^ (-1074 : ℤ) := by
  have hunits : minPositive.units = 1 := by decide
  rw [value_of_isPositiveFinite isPositiveFinite_minPositive, hunits, Nat.cast_one, one_mul]

theorem Binary64.value_maxFinite_lt : maxFinite.value < 2 ^ (1024 : ℤ) := by
  have hexponent : maxFinite.normalized.exponent = 1023 := by decide
  rw [← value_normalized isPositiveFinite_maxFinite]
  refine (Normalized.value_lt_two_zpow maxFinite.normalized_significand_lt).trans_eq ?_
  rw [hexponent]
  norm_num

namespace Mapping

variable {estimates : Estimates} {m : Mapping} {i : ℤ}

theorem HasExactRange.minIndex_le_maxIndex (hm : m.HasExactRange estimates) :
    m.minIndex estimates ≤ m.maxIndex estimates := by
  obtain ⟨exact, hexact, -, -, hmin, hmax⟩ := hm
  obtain ⟨hle, hge⟩ := hexact.bucket_mem Binary64.isPositiveFinite_minPositive
  rw [hmin, hmax]
  exact hle.trans hge

section

variable (hrange : m.HasExactRange estimates) (hi : m.minIndex estimates ≤ i)
  (hi' : i ≤ m.maxIndex estimates)
include hrange hi hi'

/-- **What the range says about a bucket in it**: the next one starts at `2 ^ -1074` or above, and it
starts below `2 ^ 1024` itself. -/
theorem HasExactRange.bounds :
    -1074 * 2 ^ m.scale.toNat ≤ (i + 1) * 2 ^ (-m.scale).toNat ∧
      i * 2 ^ (-m.scale).toNat < 1024 * 2 ^ m.scale.toNat := by
  obtain ⟨exact, hexact, hscale, -, hmin, hmax⟩ := hrange
  rw [← hscale]
  constructor
  · have hbehind : ¬ i + 1 ≤ exact.minIndex estimates := by omega
    rw [minIndex, hexact.le_bucket_normalized_iff Binary64.isPositiveFinite_minPositive] at hbehind
    rw [← not_lt, ← bucketStart_lt_two_zpow_iff, ← Binary64.value_minPositive]
    intro hlt
    refine hbehind ?_
    cases exact.convention with
    | lowerInclusive => exact hlt.le
    | upperInclusive => exact hlt
  · rw [← bucketStart_lt_two_zpow_iff]
    refine (hexact.bucketStart_le_maxFinite (hmax ▸ hi')).trans_lt ?_
    exact_mod_cast Binary64.value_maxFinite_lt

/-- Counted in buckets, at a fine scale. -/
theorem HasExactRange.bounds_fine {s : ℕ} (hscale : m.scale = s) :
    -1074 * 2 ^ s ≤ i + 1 ∧ i < 1024 * 2 ^ s := by
  simpa only [hscale, Int.toNat_natCast, Int.toNat_neg_natCast, pow_zero, mul_one]
    using hrange.bounds hi hi'

/-- Counted in powers of two, at a coarse scale. -/
theorem HasExactRange.bounds_coarse {shift : ℕ} (hscale : m.scale = -shift) :
    -1074 ≤ (i + 1) * 2 ^ shift ∧ i * 2 ^ shift < 1024 := by
  simpa only [hscale, neg_neg, Int.toNat_natCast, Int.toNat_neg_natCast, pow_zero, mul_one]
    using hrange.bounds hi hi'

end

/-! ## Every check passes -/

/-- What lower bounds rely on: the scale is one of those there are, and a table is exact. -/
def IsUsable (m : Mapping) : Prop :=
  match m.partition with
  | .powers shift => shift ≤ 10
  | .table t => t.scale ≤ 20 ∧ t.IsExact
  | .logarithm scale => scale ≤ 20

theorem entry_lt (estimates : Estimates) (scale position : ℕ) :
    Logarithm.entry estimates scale position < 2 ^ 52 := by
  simp only [Logarithm.entry]
  cases hseek : Threshold.seek? scale position (estimates.byExp scale position % 2 ^ 52) with
  | none => exact Nat.mod_lt _ (Nat.two_pow_pos 52)
  | some significand =>
    obtain ⟨stop, -, h⟩ := Option.bind_eq_some_iff.mp hseek
    obtain ⟨threshold, -, h⟩ := Option.bind_eq_some_iff.mp h
    cases h
    exact Nat.mod_lt _ (Nat.two_pow_pos 52)

/-- The significand of a boundary has 52 bits, also where an estimate stands in. -/
theorem boundary_significand_lt (hm : m.IsUsable) (i : ℤ) :
    (m.boundary estimates i).significand < 2 ^ 52 := by
  obtain ⟨partition, c⟩ := m
  cases partition with
  | powers shift => exact Nat.two_pow_pos 52
  | table t =>
    obtain ⟨k, hk, hmod, -⟩ := exists_split_index t.scale i
    simp only [boundary, hmod]
    exact hm.2.entry_lt k hk
  | logarithm scale => exact entry_lt estimates scale _

section

variable (hm : m.IsUsable) (hrange : m.HasExactRange estimates) (hi : m.minIndex estimates ≤ i)
  (hi' : i ≤ m.maxIndex estimates)
include hm hrange hi hi'

/-- In the index range no exponent is beyond those of the doubles, and none is far below. -/
theorem boundary_exponent_mem :
    -2098 ≤ (m.boundary estimates i).exponent ∧ (m.boundary estimates i).exponent ≤ 1023 := by
  have hfine : ∀ s : ℕ, m.scale = s → -2098 ≤ i / 2 ^ s ∧ i / 2 ^ s ≤ 1023 := by
    intro s hscale
    obtain ⟨hlow, hhigh⟩ := hrange.bounds_fine hi hi' hscale
    have hpos : (0 : ℤ) < 2 ^ s := by positivity
    have hbelow : i / 2 ^ s < 1024 := Int.ediv_lt_of_lt_mul hpos hhigh
    have habove : -2098 ≤ i / 2 ^ s := (Int.le_ediv_iff_mul_le hpos).mpr (by omega)
    omega
  obtain ⟨partition, c⟩ := m
  cases partition with
  | powers shift =>
    have hscale : Mapping.scale ⟨.powers shift, c⟩ = -shift := rfl
    obtain ⟨hlow, hhigh⟩ := hrange.bounds_coarse hi hi' hscale
    have hwide : (2 : ℤ) ^ shift ≤ 2 ^ 10 := pow_le_pow_right₀ (by norm_num) hm
    rw [Int.add_mul, one_mul] at hlow
    simp only [boundary]
    omega
  | table t => exact hfine t.scale rfl
  | logarithm scale => exact hfine scale rfl

/-- The indices themselves are small. -/
theorem index_mem : -2 ^ 63 ≤ i ∧ i < 2 ^ 63 := by
  have hfine : ∀ s : ℕ, s ≤ 20 → m.scale = s → -2 ^ 63 ≤ i ∧ i < 2 ^ 63 := by
    intro s hs hscale
    obtain ⟨hlow, hhigh⟩ := hrange.bounds_fine hi hi' hscale
    have hsize : (2 : ℤ) ^ s ≤ 2 ^ 20 := pow_le_pow_right₀ (by norm_num) hs
    omega
  obtain ⟨partition, c⟩ := m
  cases partition with
  | powers shift =>
    have hscale : Mapping.scale ⟨.powers shift, c⟩ = -shift := rfl
    obtain ⟨hlow, hhigh⟩ := hrange.bounds_coarse hi hi' hscale
    have hone : (1 : ℤ) ≤ 2 ^ shift := one_le_pow₀ (by norm_num)
    constructor <;> nlinarith
  | table t => exact hfine t.scale hm.1 rfl
  | logarithm scale => exact hfine scale hm rfl

end

end Mapping

namespace Checked

open Threshold.Checked (int64? int64?_eq_some bind_eq_of_eq_some)
open Binary64.Checked (int32? int32?_eq_some ceil? ceil?_eq)

variable {estimates : Estimates} {m : Mapping} {index : Int64}

section

variable (hm : m.IsUsable)
include hm

theorem significand?_eq (estimates : Estimates) (index : Int64) :
    significand? estimates index m.partition
      = some (m.boundary estimates index.toInt).significand := by
  obtain ⟨partition, c⟩ := m
  cases partition with
  | powers shift => rfl
  | table t =>
    obtain ⟨k, hk, hmod, -⟩ := Mapping.exists_split_index t.scale index.toInt
    have hcount : t.scale < 63 := hm.1.trans_lt (by decide)
    simp only [significand?, Mapping.boundary]
    rw [bind_eq_of_eq_some (lowBits?_eq index hcount), hmod, Threshold.Table.entry,
      Threshold.Table.entry?, Vector.getElem?_eq_getElem hk, Option.getD_some]
  | logarithm scale =>
    obtain ⟨k, hk, hmod, -⟩ := Mapping.exists_split_index scale index.toInt
    have hscale : scale ≤ 20 := hm
    have hposition : k < 2 ^ 62 := hk.trans_le (Nat.pow_le_pow_right (by decide) (by omega))
    simp only [significand?, Mapping.boundary]
    rw [bind_eq_of_eq_some (lowBits?_eq index (by omega)), hmod,
      bind_eq_of_eq_some (Threshold.Checked.seek?_eq hscale hposition
        (Nat.mod_lt _ (Nat.two_pow_pos 52)))]
    rfl

theorem exponent?_eq (hlow : -2 ^ 63 ≤ (m.boundary estimates index.toInt).exponent)
    (hhigh : (m.boundary estimates index.toInt).exponent < 2 ^ 63) :
    exponent? index m.partition = some (m.boundary estimates index.toInt).exponent := by
  obtain ⟨partition, c⟩ := m
  cases partition with
  | powers shift =>
    have hcount : shift < 64 := (show shift ≤ 10 from hm).trans_lt (by decide)
    exact shiftLeft64?_eq_some hcount hlow hhigh
  | table t => exact shiftRight64?_eq_some _ (hm.1.trans_lt (by decide))
  | logarithm scale => exact shiftRight64?_eq_some _ ((show scale ≤ 20 from hm).trans_lt (by decide))

variable (hrange : m.HasExactRange estimates)
include hrange

/-- **No check fails**, for any index. -/
theorem lowerBound?_eq (index : Int64) :
    lowerBound? estimates m index = some (m.lowerBound estimates index.toInt) := by
  have hends := hrange.minIndex_le_maxIndex
  obtain ⟨hmin, hmin'⟩ := Mapping.index_mem hm hrange le_rfl hends
  obtain ⟨hmax, hmax'⟩ := Mapping.index_mem hm hrange hends le_rfl
  rw [lowerBound?, bind_eq_of_eq_some (int64?_eq_some hmin hmin'),
    bind_eq_of_eq_some (int64?_eq_some hmax hmax'), Mapping.lowerBound]
  split
  · rename_i hi
    obtain ⟨hlow, hhigh⟩ := Mapping.boundary_exponent_mem hm hrange hi.1 hi.2
    have hexponent : -2 ^ 63 ≤ (m.boundary estimates index.toInt).exponent := by omega
    have hexponent' : (m.boundary estimates index.toInt).exponent < 2 ^ 63 := by omega
    have hsignificand : (m.boundary estimates index.toInt).significand < 2 ^ 52 :=
      Mapping.boundary_significand_lt hm _
    have hword := hsignificand.trans (by decide : 2 ^ 52 < 2 ^ 64)
    rw [bind_eq_of_eq_some (exponent?_eq hm hexponent hexponent'), Normalized.ceilPositive]
    split
    · rfl
    · rename_i habove
      have hboundary : (m.boundary estimates index.toInt).InRange :=
        ⟨not_lt.mp habove, hhigh, hsignificand⟩
      rw [bind_eq_of_eq_some (significand?_eq hm estimates index),
        bind_eq_of_eq_some (int32?_eq_some (by omega) (by omega)),
        bind_eq_of_eq_some (word64?_eq_some hword), bind_eq_of_eq_some (ceil?_eq hboundary)]
      rfl
  · rfl

end

end Checked

namespace Mapping

variable {estimates : Estimates} {m : Mapping} {scale : ℤ} {c : Convention}

/-! ## Every mapping there is -/

/-- The mappings that can be had for a scale and a convention: on their own, of each of the three
kinds, or by a configuration. -/
inductive Available (estimates : Estimates) (scale : ℤ) (c : Convention) : Mapping → Prop where
  | exact {m : Mapping} : Constructed estimates scale c m → Available estimates scale c m
  | logarithm {m : Mapping} : ofLogarithm scale c = .ok m → Available estimates scale c m
  | configured {strategy : Strategy} {cache : Threshold.Cache} {m : Mapping} :
      cache.Reachable estimates →
      (Configuration.build estimates ⟨scale, strategy, c⟩ cache).1 = .ok m →
        Available estimates scale c m

theorem ofLogarithm_eq_ok (h : ofLogarithm scale c = .ok m) :
    scale ∈ ScaleRange.fine ∧ m = ⟨.logarithm scale.toNat, c⟩ := by
  cases hrequire : ScaleRange.fine.require scale with
  | error e => rw [ofLogarithm, hrequire] at h; cases h
  | ok u =>
    rw [ofLogarithm, hrequire] at h
    cases h
    exact ⟨ScaleRange.require_eq_ok_iff.mp hrequire, rfl⟩

/-- A configuration adds nothing to the three kinds. -/
theorem Available.constructed_or_ofLogarithm (hm : Available estimates scale c m) :
    Constructed estimates scale c m ∨ ofLogarithm scale c = .ok m := by
  cases hm with
  | exact hm => exact Or.inl hm
  | logarithm hm => exact Or.inr hm
  | @configured strategy cache _ hcache hbuild =>
    unfold Configuration.build at hbuild
    split at hbuild
    · cases hbuild
    · split at hbuild
      · exact Or.inl (.powers hbuild)
      · cases strategy with
        | lookupTable => exact Or.inl (.table hcache hbuild)
        | logarithm => exact Or.inr hbuild

theorem Constructed.isUsable (hm : Constructed estimates scale c m) : m.IsUsable := by
  rcases hm.powers_or_table with ⟨hmem, rfl⟩ | ⟨hmem, t, rfl, hexact, rfl⟩
  · have hbounds : -10 ≤ scale ∧ scale ≤ 0 := hmem
    show scale.natAbs ≤ 10
    omega
  · have hbounds : 1 ≤ (t.scale : ℤ) ∧ (t.scale : ℤ) ≤ 20 := hmem
    exact ⟨by omega, hexact⟩

theorem Available.isUsable (hm : Available estimates scale c m) : m.IsUsable := by
  rcases hm.constructed_or_ofLogarithm with hm | hm
  · exact hm.isUsable
  · obtain ⟨hmem, rfl⟩ := ofLogarithm_eq_ok hm
    have hbounds : 1 ≤ scale ∧ scale ≤ 20 := hmem
    show scale.toNat ≤ 20
    omega

/-- Only for logarithms is the index range open. -/
theorem Available.hasExactRange (hm : Available estimates scale c m)
    (hlogarithm : ∀ s : ℕ, m.partition = .logarithm s → m.HasExactRange estimates) :
    m.HasExactRange estimates := by
  rcases hm.constructed_or_ofLogarithm with hm | hm
  · exact hm.isExact.1.hasExactRange
  · obtain ⟨-, rfl⟩ := ofLogarithm_eq_ok hm
    exact hlogarithm _ rfl

/-! ## Every index has an answer -/

theorem lowerBound_eq_error_iff (estimates : Estimates) (m : Mapping) (i : ℤ) :
    m.lowerBound estimates i =
        .error (.indexOutOfRange i (m.minIndex estimates) (m.maxIndex estimates)) ↔
      ¬ (m.minIndex estimates ≤ i ∧ i ≤ m.maxIndex estimates) := by
  rw [lowerBound]
  split
  · rename_i hi
    exact iff_of_false (fun h => by cases h) (not_not.mpr hi)
  · rename_i hi
    exact iff_of_true rfl hi

/-- In the index range the answer is a positive double, so one of at least `2 ^ -1074`. -/
theorem exists_lowerBound (hm : m.IsUsable) (hrange : m.HasExactRange estimates) {i : ℤ}
    (hi : m.minIndex estimates ≤ i) (hi' : i ≤ m.maxIndex estimates) :
    ∃ x : Binary64, m.lowerBound estimates i = .ok x ∧ x.isPositiveFinite = true ∧
      2 ^ (-1074 : ℤ) ≤ x.value := by
  obtain ⟨-, hhigh⟩ := boundary_exponent_mem hm hrange hi hi'
  obtain ⟨hfinite, -⟩ := Normalized.ceilPositive_le_iff
    (boundary_significand_lt hm i) hhigh
  refine ⟨_, if_pos ⟨hi, hi'⟩, hfinite, ?_⟩
  rw [← Binary64.value_minPositive]
  exact Binary64.value_minPositive_le hfinite

/-- **Lower bounds are total.** For a mapping of any kind and every index of 64 bits no check fails.
The answer is that the index is out of range, with the range, just where it is; elsewhere it is a
positive finite double, and it is only put together from the exponent of a double and a significand
of 52 bits. A mapping by logarithm is assumed to have the range of an exact one, and nothing else. -/
theorem lowerBound_total (hm : Available estimates scale c m)
    (hlogarithm : ∀ s : ℕ, m.partition = .logarithm s → m.HasExactRange estimates)
    (index : Int64) :
    Checked.lowerBound? estimates m index = some (m.lowerBound estimates index.toInt) ∧
    (m.lowerBound estimates index.toInt =
        .error (.indexOutOfRange index.toInt (m.minIndex estimates) (m.maxIndex estimates)) ↔
      ¬ (m.minIndex estimates ≤ index.toInt ∧ index.toInt ≤ m.maxIndex estimates)) ∧
    (m.minIndex estimates ≤ index.toInt → index.toInt ≤ m.maxIndex estimates →
      (∃ x : Binary64, m.lowerBound estimates index.toInt = .ok x ∧ x.isPositiveFinite = true ∧
        2 ^ (-1074 : ℤ) ≤ x.value) ∧
      (minSubnormalExponent ≤ (m.boundary estimates index.toInt).exponent →
        (m.boundary estimates index.toInt).InRange)) := by
  have husable := hm.isUsable
  have hrange := hm.hasExactRange hlogarithm
  refine ⟨Checked.lowerBound?_eq husable hrange index, lowerBound_eq_error_iff _ _ _, ?_⟩
  intro hi hi'
  refine ⟨exists_lowerBound husable hrange hi hi', fun hlow => ⟨hlow, ?_, ?_⟩⟩
  · exact (boundary_exponent_mem husable hrange hi hi').2
  · exact boundary_significand_lt husable _

/-- By logarithm at two buckets for each power of two, for the first bucket and far below it. -/
theorem lowerBound_total_logarithm :
    ∃ m : Mapping, Available Estimates.rounded 1 .upperInclusive m ∧
      (∀ s : ℕ, m.partition = .logarithm s → m.HasExactRange Estimates.rounded) ∧
      m.lowerBound Estimates.rounded (-2 ^ 63) = .error (.indexOutOfRange (-2 ^ 63)
        (m.minIndex Estimates.rounded) (m.maxIndex Estimates.rounded)) ∧
      ∃ (first : Int64) (x : Binary64), first.toInt = m.minIndex Estimates.rounded ∧
        Checked.lowerBound? Estimates.rounded m first = some (.ok x) ∧
        2 ^ (-1074 : ℤ) ≤ x.value := by
  have haccurate := Estimates.accurate_rounded (by decide : 1 ≤ 20)
  have hdecided := Estimates.decided_one Estimates.rounded
  obtain ⟨exact, hofScale⟩ : ∃ exact : Mapping,
      (ofScale Estimates.rounded 1 .upperInclusive ∅).1 = .ok exact := ⟨_, rfl⟩
  have hexact : Constructed Estimates.rounded 1 .upperInclusive exact := .table .empty hofScale
  obtain ⟨m, hm, hsame⟩ := hexact.exists_ofLogarithm le_rfl haccurate hdecided
  have hrange : m.HasExactRange Estimates.rounded := ⟨exact, hexact.isExact.1, hsame.scale.symm,
    hsame.convention.symm, hsame.minIndex, hsame.maxIndex⟩
  have hends := hrange.minIndex_le_maxIndex
  obtain ⟨hlow, hhigh⟩ := hrange.bounds_fine le_rfl hends (hsame.scale.trans hexact.isExact.2.1)
  rw [pow_one] at hlow hhigh
  have hfirst : (Int64.ofInt (m.minIndex Estimates.rounded)).toInt = m.minIndex Estimates.rounded :=
    Int64.toInt_ofInt_of_le (by omega) (by omega)
  have htotal := lowerBound_total (.logarithm hm) (fun _ _ => hrange)
  obtain ⟨-, hout, -⟩ := htotal Int64.minValue
  obtain ⟨hchecked, -, hin⟩ := htotal (Int64.ofInt (m.minIndex Estimates.rounded))
  obtain ⟨⟨x, hx, -, hvalue⟩, -⟩ := hin hfirst.ge (hfirst.trans_le hends)
  refine ⟨m, .logarithm hm, fun _ _ => hrange, hout.mpr ?_, _, x, hfirst,
    hchecked.trans (congrArg some hx), hvalue⟩
  have hleast : Int64.minValue.toInt = -2 ^ 63 := Int64.toInt_minValue
  omega

end Mapping

end ExponentialHistogram
