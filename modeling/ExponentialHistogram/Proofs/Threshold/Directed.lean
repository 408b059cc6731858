/-
ExponentialHistogram.Proofs.Threshold.Directed — a rounded square is the next
number below or above.

A number has no other one between itself and the next (`value_le_of_lt_next`):
with a larger exponent a number is a multiple of the same last place, with a
smaller one it is smaller altogether. The exact square is less than one last
place above the kept bits (`value_sq_lt_next`). So the kept bits are the
greatest number up to the square, and what rounding up adds to them is what it
takes to get to the least number from it on (`square_directed`).

The shape of a number is fixed by its value (`eq_of_value_eq`), so equal bounds
are equal as numbers with significand and exponent.
-/
import Mathlib
import ExponentialHistogram.Proofs.Threshold.Checked

namespace ExponentialHistogram.Threshold

namespace WideFloat

/-! ## The numbers there are -/

/-- The values of normalized numbers. -/
def representable : Set ℚ := {x | ∃ v : WideFloat, v.IsNormalized ∧ v.value = x}

variable {v w w' : WideFloat}

theorem value_mem_representable (hw : w.IsNormalized) : w.value ∈ representable := ⟨w, hw, rfl⟩

/-- **Between a number and the next one there is none**, not even one with leading zeros. -/
theorem value_le_of_lt_next (hw : w.IsNormalized) (h : v.value < w.next.value) :
    v.value ≤ w.value := by
  rcases lt_or_ge v.exponent w.exponent with hlt | hge
  · calc v.value ≤ 2 ^ (v.exponent + 128) := v.value_lt_two_zpow.le
      _ ≤ 2 ^ (w.exponent + 127) := zpow_le_zpow_right₀ one_le_two (by omega)
      _ ≤ w.value := two_zpow_le_value hw
  · -- Both are multiples of the last place of `w`.
    obtain ⟨shift, hshift⟩ : ∃ shift : ℕ, v.exponent = w.exponent + shift :=
      ⟨(v.exponent - w.exponent).toNat, by omega⟩
    have hplace : (0 : ℚ) < 2 ^ w.exponent := by positivity
    have hmultiple : v.value = (v.significand.toNat * 2 ^ shift : ℕ) * 2 ^ w.exponent := by
      rw [value, hshift, zpow_add₀ (by norm_num), zpow_natCast]
      push_cast
      ring
    rw [value_next, hmultiple, mul_lt_mul_iff_left₀ hplace, ← Nat.cast_add_one, Nat.cast_lt,
      Nat.lt_add_one_iff] at h
    rw [hmultiple, value]
    exact mul_le_mul_of_nonneg_right (Nat.cast_le.mpr h) hplace.le

/-- A larger number does not have a smaller last place. -/
theorem exponent_le_of_value_le (hv : v.IsNormalized) (h : v.value ≤ w.value) :
    v.exponent ≤ w.exponent := by
  have hpow : (2 : ℚ) ^ (v.exponent + 127) < 2 ^ (w.exponent + 128) :=
    (two_zpow_le_value hv).trans_lt (h.trans_lt w.value_lt_two_zpow)
  have := (zpow_lt_zpow_iff_right₀ one_lt_two).mp hpow
  omega

/-- A normalized number is given by its value. -/
theorem eq_of_value_eq (hv : v.IsNormalized) (hw : w.IsNormalized) (h : v.value = w.value) :
    v = w := by
  have hexponent : v.exponent = w.exponent :=
    (exponent_le_of_value_le hv h.le).antisymm (exponent_le_of_value_le hw h.ge)
  rw [value, value, hexponent, mul_left_inj' (by positivity), Nat.cast_inj] at h
  obtain ⟨significand, exponent⟩ := v
  obtain ⟨significand', exponent'⟩ := w
  exact WideFloat.mk.injEq .. ▸ ⟨BitVec.eq_of_toNat_eq h, hexponent⟩

/-! ## Rounding in either direction -/

/-- What is dropped of a square is less than a last place. -/
theorem value_sq_lt_next (hw : w.IsNormalized) : w.value ^ 2 < w.squareDown.next.value := by
  have hdropped : (w.splitSquare.2.toNat : ℚ) < 2 ^ (128 : ℤ) := by
    exact_mod_cast w.splitSquare.2.isLt
  calc w.value ^ 2
      = w.squareDown.value + w.splitSquare.2.toNat * 2 ^ (w.squareDown.exponent - 128) :=
        value_sq_eq hw
    _ < w.squareDown.value + 2 ^ (128 : ℤ) * 2 ^ (w.squareDown.exponent - 128) := by gcongr
    _ = w.squareDown.value + 2 ^ w.squareDown.exponent := by
        rw [← zpow_add₀ (by norm_num), add_sub_cancel]
    _ = w.squareDown.next.value := by rw [value_next, add_one_mul, value]

theorem squareDown_isGreatest (hw : w.IsNormalized) :
    IsGreatest {x ∈ representable | x ≤ w.value ^ 2} w.squareDown.value := by
  refine ⟨⟨value_mem_representable (isNormalized_squareDown hw), squareDown_le hw⟩, ?_⟩
  rintro _ ⟨⟨v, -, rfl⟩, hle⟩
  exact value_le_of_lt_next (isNormalized_squareDown hw) (hle.trans_lt (value_sq_lt_next hw))

theorem squareUp_isLeast (hw : w.IsNormalized) :
    IsLeast {x ∈ representable | w.value ^ 2 ≤ x} w.squareUp.value := by
  refine ⟨⟨value_mem_representable (isNormalized_squareUp hw), le_squareUp hw⟩, ?_⟩
  rintro _ ⟨⟨v, -, rfl⟩, hle⟩
  have hsquare := value_sq_eq hw
  rw [squareUp_eq]
  split
  · rename_i hzero
    rw [hzero] at hsquare
    simpa [hsquare] using hle
  · rename_i hne
    -- Some bit was dropped, so the kept bits alone lie below the square.
    have hdropped : 0 < w.splitSquare.2.toNat :=
      Nat.pos_of_ne_zero fun h => hne (BitVec.eq_of_toNat_eq h)
    have hpart : (0 : ℚ) < w.splitSquare.2.toNat * 2 ^ (w.squareDown.exponent - 128) := by
      positivity
    by_contra hlt
    have hlow := value_le_of_lt_next (isNormalized_squareDown hw) (not_le.mp hlt)
    linarith

theorem value_sq_le_value_sq (hw : w.IsNormalized) (h : w.value ≤ w'.value) :
    w.value ^ 2 ≤ w'.value ^ 2 :=
  pow_le_pow_left₀ (value_pos hw).le h 2

/-- The two directions meet exactly where the square is a number itself. -/
theorem squareDown_eq_squareUp_iff (hw : w.IsNormalized) :
    w.squareDown = w.squareUp ↔ w.value ^ 2 ∈ representable := by
  constructor
  · intro heq
    refine ⟨w.squareDown, isNormalized_squareDown hw, (squareDown_le hw).antisymm ?_⟩
    exact heq ▸ le_squareUp hw
  · intro hmem
    have hdown : w.squareDown.value = w.value ^ 2 :=
      (squareDown_le hw).antisymm ((squareDown_isGreatest hw).2 ⟨hmem, le_rfl⟩)
    have hup : w.squareUp.value = w.value ^ 2 :=
      ((squareUp_isLeast hw).2 ⟨hmem, le_rfl⟩).antisymm (le_squareUp hw)
    exact eq_of_value_eq (isNormalized_squareDown hw) (isNormalized_squareUp hw)
      (hdown.trans hup.symm)

/-- **A square is rounded to the next number in its direction.** Down it is the greatest number that
is not above the exact square, up the least one that is not below. Both are normalized, they are the
same exactly if the square is a number, and larger numbers do not have smaller squares. No operation
leaves its word, as long as the doubled exponent has room for what normalizing adds to it. -/
theorem square_directed (hw : w.IsNormalized) :
    IsGreatest {x ∈ representable | x ≤ w.value ^ 2} w.squareDown.value ∧
    IsLeast {x ∈ representable | w.value ^ 2 ≤ x} w.squareUp.value ∧
    w.squareDown.IsNormalized ∧ w.squareUp.IsNormalized ∧
    (w.squareDown = w.squareUp ↔ w.value ^ 2 ∈ representable) ∧
    (∀ w' : WideFloat, w'.IsNormalized → w.value ≤ w'.value →
      w.squareDown.value ≤ w'.squareDown.value ∧ w.squareUp.value ≤ w'.squareUp.value) ∧
    (Checked.Fits w → Checked.squareDown? w = some w.squareDown ∧
      Checked.squareUp? w = some w.squareUp) := by
  refine ⟨squareDown_isGreatest hw, squareUp_isLeast hw, isNormalized_squareDown hw,
    isNormalized_squareUp hw, squareDown_eq_squareUp_iff hw, ?_, ?_⟩
  · intro w' hw' hle
    have hsquares := value_sq_le_value_sq hw hle
    constructor
    · exact (squareDown_isGreatest hw').2
        ⟨value_mem_representable (isNormalized_squareDown hw), (squareDown_le hw).trans hsquares⟩
    · exact (squareUp_isLeast hw).2
        ⟨value_mem_representable (isNormalized_squareUp hw'), hsquares.trans (le_squareUp hw')⟩
  · intro hfits
    exact ⟨Checked.squareDown?_eq hfits, Checked.squareUp?_eq hfits⟩

/-- The square of `2 ^ 127 + 1` is not a number: its last bit is dropped, and rounding up adds one
to the last bit that is kept. -/
theorem square_directed_sticky :
    (⟨1#128 <<< 127 ||| 1#128, 0⟩ : WideFloat).IsNormalized ∧
    Checked.Fits ⟨1#128 <<< 127 ||| 1#128, 0⟩ ∧
    Checked.squareUp? ⟨1#128 <<< 127 ||| 1#128, 0⟩
      = some ⟨1#128 <<< 127 ||| 3#128, 127⟩ ∧
    ((2 : ℚ) ^ 127 + 1) ^ 2 ∉ representable := by
  have hnormalized : (⟨1#128 <<< 127 ||| 1#128, 0⟩ : WideFloat).IsNormalized :=
    (by decide : (1#128 <<< 127 ||| 1#128).msb = true)
  have hfits : Checked.Fits ⟨1#128 <<< 127 ||| 1#128, 0⟩ := ⟨by decide, by decide⟩
  have hvalue : (⟨1#128 <<< 127 ||| 1#128, 0⟩ : WideFloat).value = 2 ^ 127 + 1 := by
    rw [value, show (1#128 <<< 127 ||| 1#128).toNat = 2 ^ 127 + 1 by decide]
    norm_num
  obtain ⟨-, -, -, -, hmeet, -, hchecked⟩ := square_directed hnormalized
  refine ⟨hnormalized, hfits, (hchecked hfits).2.trans (by decide +kernel), ?_⟩
  rw [← hvalue, ← hmeet]
  decide +kernel

end WideFloat

end ExponentialHistogram.Threshold
