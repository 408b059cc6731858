/-
ExponentialHistogram.Proofs.Threshold.Order — thresholds are unique, ordered
and nested.

Whether a number attains a position is monotone in both arguments, so all
that attain it are those from the threshold on (`IsThreshold.attains_iff`),
and two neighbouring comparisons are enough to recognize the threshold
(`isThreshold_of_pred`). Thresholds of a table have their leading one at bit
52 (`IsThreshold.le_threshold`, `IsThreshold.lt_two_pow`), and a boundary of
one scale is a boundary of every finer scale (`attains_nested_iff`).
-/
import Mathlib
import ExponentialHistogram.Threshold.Basic

namespace ExponentialHistogram.Threshold

variable {m n scale position : Nat}

/-! ## Attaining a position -/

theorem Attains.mono (h : Attains m scale position) (hmn : m ≤ n) : Attains n scale position :=
  Nat.le_trans h (Nat.pow_le_pow_left hmn _)

theorem Attains.of_le {before : Nat} (h : Attains m scale position) (hle : before ≤ position) :
    Attains m scale before :=
  Nat.le_trans (Nat.pow_le_pow_right (by decide) (Nat.add_le_add_left hle _)) h

/-- The first position is attained by the numbers that have bit 52 or a higher one. -/
theorem attains_zero_iff : Attains m scale 0 ↔ 2 ^ 52 ≤ m := by
  rw [Attains, target, Nat.add_zero, Nat.pow_mul]
  exact Nat.pow_le_pow_iff_left (Nat.two_pow_pos scale).ne'

theorem Attains.le (h : Attains m scale position) : 2 ^ 52 ≤ m :=
  attains_zero_iff.mp (h.of_le (Nat.zero_le _))

/-- The position behind the last one of a table is attained by the numbers that have bit 53 or a
higher one. -/
theorem attains_end_iff : Attains m scale (2 ^ scale) ↔ 2 ^ 53 ≤ m := by
  have htarget : target scale (2 ^ scale) = 53 * 2 ^ scale := by
    rw [target]; omega
  rw [Attains, htarget, Nat.pow_mul]
  exact Nat.pow_le_pow_iff_left (Nat.two_pow_pos scale).ne'

/-- The first number that has bit 52 attains the first position only. -/
theorem attains_two_pow_iff : Attains (2 ^ 52) scale position ↔ position = 0 := by
  rw [Attains, target, ← Nat.pow_mul, Nat.pow_le_pow_iff_right one_lt_two]
  omega

/-- Positions lie further apart than candidates: the loss of one unit is less than a half, even
after `scale` squarings, so the predecessor attains the position before. -/
theorem Attains.pred (h : Attains m scale (position + 1)) (hscale : 2 ^ (scale + 1) ≤ m) :
    Attains (m - 1) scale position := by
  have hpos : (0 : ℚ) < m := by exact_mod_cast (Nat.two_pow_pos (scale + 1)).trans_le hscale
  have hcount : (2 ^ scale : ℚ) / m ≤ 1 / 2 := by
    rw [div_le_div_iff₀ hpos (by norm_num), one_mul, ← pow_succ]
    exact_mod_cast hscale
  have hbernoulli : 1 + ((2 ^ scale : ℕ) : ℚ) * (-1 / m) ≤ (1 + -1 / m) ^ 2 ^ scale := by
    refine one_add_mul_le_pow ?_ _
    have : (1 : ℚ) ≤ m := by exact_mod_cast hpos
    rw [neg_div, neg_le_neg_iff, div_le_iff₀ hpos]
    linarith
  have hhalf : (1 / 2 : ℚ) ≤ (1 + -1 / m) ^ 2 ^ scale := by
    refine le_trans ?_ hbernoulli
    push_cast
    rw [mul_div_assoc', mul_neg_one, neg_div]
    linarith
  have hpower : (2 : ℚ) ^ (target scale position + 1) ≤ (m : ℚ) ^ 2 ^ scale := by exact_mod_cast h
  suffices ((2 ^ target scale position : ℕ) : ℚ) ≤ ((m - 1 : ℕ) : ℚ) ^ 2 ^ scale by
    rw [Attains]; exact_mod_cast this
  calc ((2 ^ target scale position : ℕ) : ℚ)
      = 2 ^ (target scale position + 1) * (1 / 2) := by push_cast; ring
    _ ≤ (m : ℚ) ^ 2 ^ scale * (1 + -1 / m) ^ 2 ^ scale :=
        mul_le_mul hpower hhalf (by norm_num) (by positivity)
    _ = ((m - 1 : ℕ) : ℚ) ^ 2 ^ scale := by
        rw [← mul_pow, Nat.cast_sub (by exact_mod_cast hpos), mul_add, mul_div_cancel₀ _ hpos.ne']
        ring

/-- The last number below `2 ^ 53` attains every position of a table. -/
theorem attains_of_lt_two_pow (hscale : scale ≤ 52) (h : position < 2 ^ scale) :
    Attains (2 ^ 53 - 1) scale position := by
  have hend : Attains (2 ^ 53) scale (2 ^ scale) := attains_end_iff.mpr le_rfl
  have hcount : 2 ^ (scale + 1) ≤ 2 ^ 53 := Nat.pow_le_pow_right (by decide) (by omega)
  exact (hend.of_le h).pred hcount

/-- A boundary of a scale is the one at the multiplied position of a finer scale. -/
theorem attains_nested_iff (finer : Nat) :
    Attains m (scale + finer) (position * 2 ^ finer) ↔ Attains m scale position := by
  have htarget : target (scale + finer) (position * 2 ^ finer)
      = target scale position * 2 ^ finer := by
    simp only [target, Nat.pow_add]; ring
  rw [Attains, htarget, Nat.pow_add, Nat.pow_mul, Nat.pow_mul]
  exact Nat.pow_le_pow_iff_left (Nat.two_pow_pos finer).ne'

/-- The position is the last one of a table that the number attains. -/
structure IsLastAttained (m scale position : Nat) : Prop where
  lt : position < 2 ^ scale
  le_iff : ∀ k, k < 2 ^ scale → (k ≤ position ↔ Attains m scale k)

theorem IsLastAttained.attains (h : IsLastAttained m scale position) : Attains m scale position :=
  (h.le_iff position h.lt).mp le_rfl

/-- A number below `2 ^ 53` does not attain the next position, also where a table has none. -/
theorem IsLastAttained.not_attains_succ (h : IsLastAttained m scale position) (hm : m < 2 ^ 53) :
    ¬ Attains m scale (position + 1) := by
  intro hattains
  rcases Nat.lt_or_ge (position + 1) (2 ^ scale) with hlt | hge
  · have := (h.le_iff _ hlt).mpr hattains
    omega
  · have hend : 2 ^ scale = position + 1 := by
      have := h.lt
      omega
    rw [← hend, attains_end_iff] at hattains
    omega

/-! ## Thresholds -/

/-- Attaining a position while the predecessor does not is all there is to a threshold. -/
theorem isThreshold_of_pred (h : Attains m scale position)
    (hpred : ¬ Attains (m - 1) scale position) : IsThreshold m scale position := by
  refine ⟨h, ?_⟩
  intro n hn
  by_contra hlt
  exact hpred (hn.mono (by omega))

namespace IsThreshold

theorem attains_iff (h : IsThreshold m scale position) : Attains n scale position ↔ m ≤ n :=
  ⟨h.least n, h.attains.mono⟩

theorem unique (hm : IsThreshold m scale position) (hn : IsThreshold n scale position) : m = n :=
  Nat.le_antisymm (hm.least n hn.attains) (hn.least m hm.attains)

theorem le_threshold (h : IsThreshold m scale position) : 2 ^ 52 ≤ m :=
  h.attains.le

theorem lt_two_pow (h : IsThreshold m scale position) (hscale : scale ≤ 52)
    (hposition : position < 2 ^ scale) : m < 2 ^ 53 := by
  have := h.least _ (attains_of_lt_two_pow hscale hposition)
  omega

theorem nested_iff (finer : Nat) :
    IsThreshold m (scale + finer) (position * 2 ^ finer) ↔ IsThreshold m scale position :=
  ⟨fun h => ⟨(attains_nested_iff finer).mp h.attains,
      fun n hn => h.least n ((attains_nested_iff finer).mpr hn)⟩,
    fun h => ⟨(attains_nested_iff finer).mpr h.attains,
      fun n hn => h.least n ((attains_nested_iff finer).mp hn)⟩⟩

end IsThreshold

end ExponentialHistogram.Threshold
