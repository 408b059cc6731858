/-
ExponentialHistogram.Proofs.Binary64.Grid — doubles as multiples of a power of
two, and the double below a double.

From one binade to the next the distance between doubles doubles. The bits of
a double are a count of such steps: with `shift` binades of `2 ^ 52` doubles
behind it, the `multiple`-th point of the grid of `2 ^ shift` units has the bits
`shift * 2 ^ 52 + multiple` (`units_multiple`, `exists_onGrid`). A multiple of
`2 ^ 53` belongs to the next binade and has the bits that it has there.

One less in the bits is the double just below, which is never more than one
part in `2 ^ 52` away from a normal number (`exists_isJustBelow`). This holds
across a power of two and from the smallest normal number into the subnormal
ones as well.
-/
import Mathlib
import ExponentialHistogram.Proofs.Binary64.Value

namespace ExponentialHistogram.Binary64

variable {x y : Binary64} {shift multiple : ℕ}

theorem toNat_infinity : infinity.bits.toNat = 2047 * 2 ^ 52 := by decide

/-- The bits of a multiple of `2 ^ shift` units. A multiple of `2 ^ 53` has carried into the
exponent. -/
theorem units_multiple (hlow : 0 < shift → 2 ^ 52 ≤ multiple) (hhigh : multiple ≤ 2 ^ 53)
    (hfinite : shift * 2 ^ 52 + multiple < 2047 * 2 ^ 52) :
    (ofBitsNat (shift * 2 ^ 52 + multiple)).units = multiple * 2 ^ shift := by
  have hbits : (ofBitsNat (shift * 2 ^ 52 + multiple)).bits.toNat = shift * 2 ^ 52 + multiple :=
    toNat_ofBitsNat (by omega)
  generalize ofBitsNat (shift * 2 ^ 52 + multiple) = x at hbits
  rcases Nat.lt_or_ge multiple (2 ^ 52) with hsmall | hnormal
  · obtain rfl : shift = 0 := by
      by_contra hne
      exact absurd (hlow (Nat.pos_of_ne_zero hne)) hsmall.not_ge
    rw [Nat.zero_mul, Nat.zero_add] at hbits
    rw [units_of_bits_le (hbits.trans_le hsmall.le), hbits, Nat.pow_zero, Nat.mul_one]
  · have hdecode : ∀ field rest, shift * 2 ^ 52 + multiple = (field + 1) * 2 ^ 52 + rest →
        rest < 2 ^ 52 → field + 1 < 2 ^ 11 → x.units = (2 ^ 52 + rest) * 2 ^ field := by
      intro field rest heq hrest hfield
      have hexp : x.exponentField = field + 1 := by simp only [exponentField]; omega
      have hsig : x.significand = rest := by simp only [significand]; omega
      rw [units, hexp, hsig, if_neg (Nat.succ_ne_zero field), Nat.add_sub_cancel]
    rcases Nat.lt_or_ge multiple (2 ^ 53) with hbinade | hcarry
    · rw [hdecode shift (multiple - 2 ^ 52) (by omega) (by omega) (by omega)]
      rw [Nat.add_sub_cancel' hnormal]
    · obtain rfl : multiple = 2 ^ 53 := by omega
      rw [hdecode (shift + 1) 0 (by omega) (by decide) (by omega), Nat.pow_succ]
      omega

/-- The double is this multiple of `2 ^ shift` units, on the grid of its own binade. Below the
second normal binade the units themselves are the grid. -/
structure OnGrid (x : Binary64) (shift multiple : ℕ) : Prop where
  bits_eq : x.bits.toNat = shift * 2 ^ 52 + multiple
  units_eq : x.units = multiple * 2 ^ shift
  le_multiple : 0 < shift → 2 ^ 52 ≤ multiple
  multiple_lt : multiple < 2 ^ 53

theorem bits_eq_fields (hx : x.isPositiveFinite = true) :
    x.bits.toNat = x.exponentField * 2 ^ 52 + x.significand := by
  rw [(fields_of_isPositiveFinite hx).2.1]
  simp only [significand]
  omega

theorem exists_onGrid (hx : x.isPositiveFinite = true) : ∃ shift multiple, x.OnGrid shift multiple := by
  have hsignificand := x.significand_lt
  have hbits := bits_eq_fields hx
  cases hfield : x.exponentField with
  | zero =>
    have hunits : x.units = x.significand * 2 ^ 0 := by
      rw [units, if_pos hfield, Nat.pow_zero, Nat.mul_one]
    rw [hfield] at hbits
    exact ⟨0, _, hbits, hunits, fun h => absurd h (Nat.lt_irrefl 0),
      hsignificand.trans (by decide)⟩
  | succ shift =>
    have hunits : x.units = (2 ^ 52 + x.significand) * 2 ^ shift := by
      rw [units, hfield, if_neg (Nat.succ_ne_zero shift), Nat.add_sub_cancel]
    rw [hfield, Nat.succ_mul, Nat.add_assoc] at hbits
    exact ⟨shift, _, hbits, hunits, fun _ => Nat.le_add_right _ _,
      Nat.add_lt_add_left hsignificand _⟩

/-- Of any double the units are a multiple of a power of two with 53 bits. -/
theorem exists_units_eq (x : Binary64) : ∃ shift multiple, x.units = multiple * 2 ^ shift ∧
    (0 < shift → 2 ^ 52 ≤ multiple) ∧ multiple < 2 ^ 53 := by
  have hsignificand := x.significand_lt
  unfold units
  split
  · exact ⟨0, _, (Nat.mul_one _).symm, fun h => absurd h (Nat.lt_irrefl 0),
      hsignificand.trans (by decide)⟩
  · exact ⟨_, _, rfl, fun _ => Nat.le_add_right _ _, Nat.add_lt_add_left hsignificand _⟩

/-! ## Steps of the grid -/

section

variable (hx : x.OnGrid shift multiple)
include hx

/-- The next double is one step away, also if it belongs to the next binade. -/
theorem OnGrid.exists_succ (hfinite : x.bits.toNat + 1 < 2047 * 2 ^ 52) :
    ∃ y : Binary64, y.bits.toNat = x.bits.toNat + 1 ∧ y.units = x.units + 2 ^ shift := by
  obtain ⟨hbits, hunits, hlow, hhigh⟩ := hx
  refine ⟨ofBitsNat (shift * 2 ^ 52 + (multiple + 1)), ?_, ?_⟩
  · rw [toNat_ofBitsNat (by omega)]
    omega
  · rw [hunits, ← Nat.succ_mul]
    exact units_multiple (fun h => (hlow h).trans (Nat.le_succ _)) hhigh (by omega)

/-- So is the one before, but only half a step below a power of two, on the finer grid of the binade
below. -/
theorem OnGrid.exists_pred (hpos : 0 < x.bits.toNat) (hfinite : x.bits.toNat < 2047 * 2 ^ 52) :
    ∃ y : Binary64, y.bits.toNat + 1 = x.bits.toNat ∧
      (y.units + 2 ^ shift = x.units ∨
        0 < shift ∧ multiple = 2 ^ 52 ∧ 2 * y.units + 2 ^ shift = 2 * x.units) := by
  obtain ⟨hbits, hunits, hlow, hhigh⟩ := hx
  by_cases hbottom : 0 < shift ∧ multiple = 2 ^ 52
  · obtain ⟨hshift, rfl⟩ := hbottom
    obtain ⟨finer, rfl⟩ : ∃ finer, shift = finer + 1 := ⟨shift - 1, by omega⟩
    have hpred : (ofBitsNat (finer * 2 ^ 52 + (2 ^ 53 - 1))).units = (2 ^ 53 - 1) * 2 ^ finer :=
      units_multiple (by omega) (by omega) (by omega)
    refine ⟨ofBitsNat (finer * 2 ^ 52 + (2 ^ 53 - 1)), ?_, Or.inr ⟨hshift, rfl, ?_⟩⟩
    · rw [toNat_ofBitsNat (by omega)]
      omega
    · rw [hpred, hunits, Nat.pow_succ]
      omega
  · obtain ⟨k, rfl⟩ : ∃ k, multiple = k + 1 := ⟨multiple - 1, by omega⟩
    have hpred : (ofBitsNat (shift * 2 ^ 52 + k)).units = k * 2 ^ shift :=
      units_multiple (by omega) (by omega) (by omega)
    refine ⟨ofBitsNat (shift * 2 ^ 52 + k), ?_, Or.inl ?_⟩
    · rw [toNat_ofBitsNat (by omega)]
      omega
    · rw [hpred, hunits, Nat.succ_mul]

end

/-! ## The double below -/

/-- The greatest of the smaller positive doubles. -/
structure IsJustBelow (y x : Binary64) : Prop where
  isPositiveFinite : y.isPositiveFinite = true
  value_lt : y.value < x.value
  greatest : ∀ z : Binary64, z.isPositiveFinite = true → z.value < x.value → z.value ≤ y.value

theorem isJustBelow_of_bits (hx : x.isPositiveFinite = true) (hy : y.isPositiveFinite = true)
    (h : y.bits.toNat + 1 = x.bits.toNat) : y.IsJustBelow x where
  isPositiveFinite := hy
  value_lt := by
    rw [← not_le, value_le_value_iff hx hy]
    omega
  greatest z hz hlt := by
    rw [← not_le, value_le_value_iff hx hz] at hlt
    rw [value_le_value_iff hz hy]
    omega

/-- From the smallest normal number on, the next multiple below is less than one part in `2 ^ 52`
away. -/
theorem units_pred (hx : x.isPositiveFinite = true) (hnormal : 2 ^ 52 ≤ x.units) :
    ∃ y : Binary64, y.bits.toNat + 1 = x.bits.toNat ∧ x.units * (2 ^ 52 - 1) ≤ y.units * 2 ^ 52 := by
  obtain ⟨shift, multiple, hgrid⟩ := exists_onGrid hx
  obtain ⟨hpos, hfinite⟩ := (isPositiveFinite_iff x).mp hx
  have hwide : 2 ^ 52 * 2 ^ shift ≤ x.units := by
    rcases Nat.eq_zero_or_pos shift with rfl | hshift
    · rwa [Nat.pow_zero, Nat.mul_one]
    · rw [hgrid.units_eq]
      exact Nat.mul_le_mul_right _ (hgrid.le_multiple hshift)
  obtain ⟨y, hbits, hunits⟩ := hgrid.exists_pred hpos hfinite
  exact ⟨y, hbits, by omega⟩

/-- **The double below a normal number** is at most one part in `2 ^ 52` away. -/
theorem exists_isJustBelow (hx : x.isPositiveFinite = true) (hnormal : 2 ^ (-1022 : ℤ) ≤ x.value) :
    ∃ y : Binary64, y.IsJustBelow x ∧ x.value * (1 - 1 / 2 ^ 52) ≤ y.value := by
  have hunit : (0 : ℚ) < 2 ^ (-1074 : ℤ) := by positivity
  have hunits : 2 ^ 52 ≤ x.units := by
    rw [value_of_isPositiveFinite hx, show (-1022 : ℤ) = 52 + -1074 by norm_num,
      zpow_add₀ (by norm_num), mul_le_mul_iff_of_pos_right hunit] at hnormal
    exact_mod_cast hnormal
  obtain ⟨y, hbits, hle⟩ := units_pred hx hunits
  have hy : y.isPositiveFinite = true := by
    have hpos : 0 < y.units := by
      by_contra hzero
      omega
    have hne : y.bits.toNat ≠ 0 := by
      intro hzero
      rw [units_of_bits_le (by omega)] at hpos
      omega
    rw [isPositiveFinite_iff] at hx ⊢
    omega
  refine ⟨y, isJustBelow_of_bits hx hy hbits, ?_⟩
  rw [value_of_isPositiveFinite hx, value_of_isPositiveFinite hy, mul_right_comm,
    mul_le_mul_iff_of_pos_right hunit]
  rw [← @Nat.cast_le ℚ] at hle
  push_cast at hle
  linarith

end ExponentialHistogram.Binary64
