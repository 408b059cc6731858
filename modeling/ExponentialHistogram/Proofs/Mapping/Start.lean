/-
ExponentialHistogram.Proofs.Mapping.Start — where buckets start, and which
numbers have passed a start.

At scale `s` bucket `i` starts at the real number `2 ^ (i / 2 ^ s)`. A root is
compared with a rational number by raising both to a power
(`bucketStart_le_iff`), and for a normalized number that comparison splits:
exponents decide, and within one binade it is the comparison of a significand
with a position (`two_zpow_le_value_pow_iff`). The same comparison can be read
off a logarithm (`le_scaledLog_iff`).

Only powers of two ever lie on a start (`two_zpow_eq_value_pow_iff`). This is
why a correction that looks at nothing but the significand turns the index of
one convention into that of the other (`le_sub_correction_iff`).
-/
import Mathlib
import ExponentialHistogram.Proofs.Binary64.Value
import ExponentialHistogram.Proofs.Threshold.Order

namespace ExponentialHistogram

open Binary64 (Normalized)

/-- The number at which a bucket starts, `2 ^ (index / 2 ^ scale)`. -/
noncomputable def bucketStart (scale index : ℤ) : ℝ := 2 ^ ((index : ℝ) / 2 ^ scale)

/-- A value lies in the bucket that starts at `start` or above it. -/
def Convention.Admits {α : Type} [LE α] [LT α] (c : Convention) (start value : α) : Prop :=
  match c with
  | .lowerInclusive => start ≤ value
  | .upperInclusive => start < value

theorem Convention.Admits.le {α : Type} [Preorder α] {c : Convention} {start value : α}
    (h : c.Admits start value) : start ≤ value := by
  cases c with
  | lowerInclusive => exact h
  | upperInclusive => exact (show start < value from h).le

theorem Convention.Admits.trans_le {α : Type} [Preorder α] {c : Convention}
    {start value greater : α} (h : c.Admits start value) (hle : value ≤ greater) :
    c.Admits start greater := by
  cases c with
  | lowerInclusive => exact (show start ≤ value from h).trans hle
  | upperInclusive => exact (show start < value from h).trans_le hle

/-! ## Exact arithmetic for starts -/

theorem bucketStart_pos (scale index : ℤ) : 0 < bucketStart scale index := by
  rw [bucketStart]; positivity

/-- One of the two exponents is 1: a start is a root at a positive scale and a power at a negative
one. -/
theorem bucketStart_pow (scale index : ℤ) :
    bucketStart scale index ^ 2 ^ scale.toNat
      = ((2 ^ (index * 2 ^ (-scale).toNat) : ℚ) : ℝ) := by
  rw [bucketStart, ← Real.rpow_natCast, ← Real.rpow_mul (by norm_num), Rat.cast_zpow,
    Rat.cast_ofNat, ← Real.rpow_intCast 2 (index * 2 ^ (-scale).toNat)]
  congr 1
  push_cast
  rcases le_total 0 scale with hscale | hscale
  · obtain ⟨s, rfl⟩ := Int.eq_ofNat_of_zero_le hscale
    simp
  · obtain ⟨s, hs⟩ := Int.eq_ofNat_of_zero_le (Int.neg_nonneg.mpr hscale)
    obtain rfl : scale = -s := by omega
    simp

theorem bucketStart_le_iff {v : ℚ} (hv : 0 < v) (scale index : ℤ) :
    bucketStart scale index ≤ v ↔
      (2 : ℚ) ^ (index * 2 ^ (-scale).toNat) ≤ v ^ 2 ^ scale.toNat := by
  have hreal : (0 : ℝ) ≤ v := by exact_mod_cast hv.le
  rw [← pow_le_pow_iff_left₀ (bucketStart_pos scale index).le hreal
    (Nat.two_pow_pos scale.toNat).ne', bucketStart_pow, ← Rat.cast_pow, Rat.cast_le]

theorem bucketStart_lt_iff {v : ℚ} (hv : 0 < v) (scale index : ℤ) :
    bucketStart scale index < v ↔
      (2 : ℚ) ^ (index * 2 ^ (-scale).toNat) < v ^ 2 ^ scale.toNat := by
  have hreal : (0 : ℝ) ≤ v := by exact_mod_cast hv.le
  rw [← pow_lt_pow_iff_left₀ (bucketStart_pos scale index).le hreal
    (Nat.two_pow_pos scale.toNat).ne', bucketStart_pow, ← Rat.cast_pow, Rat.cast_lt]

theorem admits_bucketStart_iff (c : Convention) {v : ℚ} (hv : 0 < v) (scale index : ℤ) :
    c.Admits (bucketStart scale index) v ↔
      c.Admits ((2 : ℚ) ^ (index * 2 ^ (-scale).toNat)) (v ^ 2 ^ scale.toNat) := by
  cases c with
  | lowerInclusive => exact bucketStart_le_iff hv scale index
  | upperInclusive => exact bucketStart_lt_iff hv scale index

/-- At a fine scale the value is raised to the power of the scale. -/
theorem admits_bucketStart_fine (c : Convention) {v : ℚ} (hv : 0 < v) (s : ℕ) (index : ℤ) :
    c.Admits (bucketStart s index) v ↔ c.Admits ((2 : ℚ) ^ index) (v ^ 2 ^ s) := by
  rw [admits_bucketStart_iff c hv, Int.toNat_neg_natCast, Int.toNat_natCast, pow_zero, mul_one]

/-- At a coarse scale starts are powers of two. -/
theorem admits_bucketStart_coarse (c : Convention) {v : ℚ} (hv : 0 < v) (shift : ℕ) (index : ℤ) :
    c.Admits (bucketStart (-shift) index) v ↔ c.Admits ((2 : ℚ) ^ (index * 2 ^ shift)) v := by
  rw [admits_bucketStart_iff c hv, neg_neg, Int.toNat_natCast, Int.toNat_neg_natCast, pow_zero,
    pow_one]

/-! ## Significands against positions -/

/-- The real number whose whole part is the position of the significand. -/
noncomputable def scaledLog (scale significand : ℕ) : ℝ :=
  2 ^ scale * Real.logb 2 (1 + significand / 2 ^ 52)

/-- Counted in units of the last place, a position is attained from the start of its bucket on. -/
theorem bucketStart_mul_le_iff (m scale position : ℕ) :
    ((2 ^ 52 : ℕ) : ℝ) * bucketStart scale position ≤ m ↔ Threshold.Attains m scale position := by
  have hstart := bucketStart_pow scale position
  rw [Int.toNat_natCast, Int.toNat_neg_natCast, pow_zero, mul_one, zpow_natCast] at hstart
  rw [← pow_le_pow_iff_left₀ (mul_nonneg (Nat.cast_nonneg _) (bucketStart_pos _ _).le)
    (Nat.cast_nonneg m) (Nat.two_pow_pos scale).ne', mul_pow, hstart, Threshold.Attains,
    Threshold.target, Nat.pow_add, Nat.pow_mul]
  exact_mod_cast Iff.rfl

/-- The logarithm has reached a position exactly if the significand attains it. -/
theorem le_scaledLog_iff (scale significand position : ℕ) :
    (position : ℝ) ≤ scaledLog scale significand ↔
      Threshold.Attains (2 ^ 52 + significand) scale position := by
  have hfrac : 1 + (significand : ℝ) / 2 ^ 52
      = ((2 ^ 52 + significand : ℕ) : ℝ) / (2 ^ 52 : ℕ) := by
    rw [Nat.cast_add, add_div, div_self (Nat.cast_ne_zero.mpr (Nat.two_pow_pos 52).ne'),
      Nat.cast_pow, Nat.cast_ofNat]
  have hstart : bucketStart scale position = 2 ^ ((position : ℝ) / 2 ^ scale) := by
    rw [bucketStart, zpow_natCast, Int.cast_natCast]
  rw [scaledLog, ← div_le_iff₀' (by positivity), Real.le_logb_iff_rpow_le (by norm_num)
    (by positivity), hfrac, le_div_iff₀' (Nat.cast_pos.mpr (Nat.two_pow_pos 52)), ← hstart,
    bucketStart_mul_le_iff]

theorem scaledLog_nonneg (scale significand : ℕ) : 0 ≤ scaledLog scale significand := by
  have hattains : Threshold.Attains (2 ^ 52 + significand) scale 0 :=
    Threshold.attains_zero_iff.mpr (by omega)
  rwa [← le_scaledLog_iff, Nat.cast_zero] at hattains

theorem scaledLog_lt (scale : ℕ) {significand : ℕ} (h : significand < 2 ^ 52) :
    scaledLog scale significand < 2 ^ scale := by
  have hend : ¬ Threshold.Attains (2 ^ 52 + significand) scale (2 ^ scale) := by
    rw [Threshold.attains_end_iff]
    omega
  rwa [← le_scaledLog_iff, not_le, Nat.cast_pow, Nat.cast_ofNat] at hend

/-! ## Normalized numbers against starts -/

/-- Squaring a power of two `s` times. -/
theorem two_zpow_pow (j : ℤ) (s : ℕ) : ((2 : ℚ) ^ j) ^ 2 ^ s = 2 ^ (j * 2 ^ s) := by
  rw [← zpow_natCast, ← zpow_mul]
  push_cast
  rfl

/-- A greater exponent is greater by a whole binade of `2 ^ s` buckets. -/
theorem binade_le {d e : ℤ} (h : d < e) (s : ℕ) : d * 2 ^ s + 2 ^ s ≤ e * 2 ^ s := by
  have hle : (d + 1) * 2 ^ s ≤ e * 2 ^ s :=
    Int.mul_le_mul_of_nonneg_right (by omega) (by positivity)
  rwa [Int.add_mul, one_mul] at hle

/-- Only the least significand has a power that is a power of two. -/
theorem significand_eq_zero_of_pow_eq {m s t : ℕ} (hm : m < 2 ^ 52)
    (h : (2 ^ 52 + m) ^ 2 ^ s = 2 ^ t) : m = 0 := by
  have hdvd : 2 ^ 52 + m ∣ 2 ^ t := h ▸ dvd_pow_self _ (Nat.two_pow_pos s).ne'
  obtain ⟨a, -, ha⟩ := (Nat.dvd_prime_pow Nat.prime_two).mp hdvd
  have hlow : 52 ≤ a := (Nat.pow_le_pow_iff_right (by decide : 1 < 2)).mp (by omega)
  have hhigh : a < 53 := (Nat.pow_lt_pow_iff_right (by decide : 1 < 2)).mp (by omega)
  obtain rfl : a = 52 := by omega
  omega

section Normalized

variable {n : Normalized}

theorem value_pow_eq (n : Normalized) (s : ℕ) :
    n.value ^ 2 ^ s
      = ((2 ^ 52 + n.significand : ℕ) : ℚ) ^ 2 ^ s * 2 ^ ((n.exponent - 52) * 2 ^ s) := by
  rw [n.value_eq_mul, mul_pow, two_zpow_pow]

/-- **The exponent decides, and within a binade the position.** -/
theorem two_zpow_le_value_pow_iff (hn : n.significand < 2 ^ 52) {s position : ℕ}
    (hposition : position < 2 ^ s) (e : ℤ) :
    (2 : ℚ) ^ (e * 2 ^ s + position) ≤ n.value ^ 2 ^ s ↔
      e < n.exponent ∨
        e = n.exponent ∧ Threshold.Attains (2 ^ 52 + n.significand) s position := by
  have hcount : (position : ℤ) < 2 ^ s := by exact_mod_cast hposition
  rcases lt_trichotomy e n.exponent with hlt | heq | hgt
  · have hexp : e * 2 ^ s + position ≤ n.exponent * 2 ^ s := by
      have := binade_le hlt s
      omega
    refine iff_of_true ?_ (Or.inl hlt)
    calc (2 : ℚ) ^ (e * 2 ^ s + position) ≤ 2 ^ (n.exponent * 2 ^ s) :=
          zpow_le_zpow_right₀ (by norm_num) hexp
      _ = (2 ^ n.exponent) ^ 2 ^ s := (two_zpow_pow _ _).symm
      _ ≤ n.value ^ 2 ^ s := pow_le_pow_left₀ (by positivity) n.two_zpow_le_value _
  · subst heq
    have hsplit : (2 : ℚ) ^ (n.exponent * 2 ^ s + position)
        = 2 ^ (Threshold.target s position : ℤ) * 2 ^ ((n.exponent - 52) * 2 ^ s) := by
      rw [← zpow_add₀ (by norm_num)]
      congr 1
      unfold Threshold.target
      push_cast
      ring
    rw [hsplit, value_pow_eq, mul_le_mul_iff_of_pos_right (by positivity), zpow_natCast]
    simp only [lt_irrefl, true_and, false_or, Threshold.Attains]
    exact_mod_cast Iff.rfl
  · have hexp : (n.exponent + 1) * 2 ^ s ≤ e * 2 ^ s + position := by
      have := binade_le hgt s
      rw [Int.add_mul, one_mul]
      omega
    refine iff_of_false (not_le.mpr ?_) (by omega)
    calc n.value ^ 2 ^ s < (2 ^ (n.exponent + 1)) ^ 2 ^ s :=
          pow_lt_pow_left₀ (Normalized.value_lt_two_zpow hn) n.value_pos.le
            (Nat.two_pow_pos s).ne'
      _ = 2 ^ ((n.exponent + 1) * 2 ^ s) := two_zpow_pow _ _
      _ ≤ 2 ^ (e * 2 ^ s + position) := zpow_le_zpow_right₀ (by norm_num) hexp

/-- **Only powers of two lie on a start**: no other significand has a power that is a power of
two. -/
theorem two_zpow_eq_value_pow_iff (hn : n.significand < 2 ^ 52) (s : ℕ) (j : ℤ) :
    (2 : ℚ) ^ j = n.value ^ 2 ^ s ↔ n.significand = 0 ∧ j = n.exponent * 2 ^ s := by
  have hpower : n.significand = 0 → n.value ^ 2 ^ s = (2 : ℚ) ^ (n.exponent * 2 ^ s) := by
    intro hzero
    rw [Normalized.value, hzero, Nat.cast_zero, zero_div, add_zero, mul_one, two_zpow_pow]
  constructor
  · intro h
    have hzero : n.significand = 0 := by
      have hint : ((2 ^ 52 + n.significand : ℕ) : ℚ) ^ 2 ^ s
          = 2 ^ (j - (n.exponent - 52) * 2 ^ s) := by
        rw [zpow_sub₀ (by norm_num), h, value_pow_eq, mul_div_assoc,
          div_self (by positivity), mul_one]
      have hnonneg : 0 ≤ j - (n.exponent - 52) * 2 ^ s := by
        have hone : (2 : ℚ) ^ (0 : ℤ) ≤ 2 ^ (j - (n.exponent - 52) * 2 ^ s) := by
          rw [← hint, zpow_zero]
          exact one_le_pow₀ (by exact_mod_cast (by omega : 1 ≤ 2 ^ 52 + n.significand))
        exact (zpow_le_zpow_iff_right₀ (by norm_num)).mp hone
      obtain ⟨t, ht⟩ := Int.eq_ofNat_of_zero_le hnonneg
      rw [ht, zpow_natCast] at hint
      exact significand_eq_zero_of_pow_eq hn (by exact_mod_cast hint)
    refine ⟨hzero, ?_⟩
    rw [hpower hzero] at h
    exact zpow_right_injective₀ (by norm_num) (by norm_num) h
  · rintro ⟨hzero, rfl⟩
    exact (hpower hzero).symm

/-- **From one convention to the other.** If `last` is the last start not above the number, then
`last` less the correction is the last one that the convention admits. -/
theorem le_sub_correction_iff (hn : n.significand < 2 ^ 52) {s : ℕ} {last : ℤ}
    (hlast : ∀ j : ℤ, j ≤ last ↔ (2 : ℚ) ^ j ≤ n.value ^ 2 ^ s) (c : Convention) (j : ℤ) :
    j ≤ last - c.correction n.significand ↔ c.Admits ((2 : ℚ) ^ j) (n.value ^ 2 ^ s) := by
  cases c with
  | lowerInclusive => simpa [Convention.correction, Convention.Admits] using hlast j
  | upperInclusive =>
    have heq := fun j => two_zpow_eq_value_pow_iff hn s j
    simp only [Convention.correction, Convention.Admits, lt_iff_le_and_ne, ne_eq, heq, ← hlast]
    by_cases hzero : n.significand = 0
    · -- The number itself is the start of bucket `last`.
      have hstart : n.exponent * 2 ^ s = last := by
        apply le_antisymm
        · exact (hlast _).mpr ((heq _).mpr ⟨hzero, rfl⟩).le
        · have hle := (hlast last).mp le_rfl
          rw [← (heq _).mpr ⟨hzero, rfl⟩] at hle
          exact (zpow_le_zpow_iff_right₀ (by norm_num)).mp hle
      simp only [hzero, if_true, true_and, hstart]
      omega
    · simp [hzero]

end Normalized

end ExponentialHistogram
