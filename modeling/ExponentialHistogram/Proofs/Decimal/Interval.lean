/-
ExponentialHistogram.Proofs.Decimal.Interval — the numbers that a double stands
for.

The rounding interval of a double holds the numbers that are nearer to it than
to any other double, and an end of it, where two doubles are equally near, if
its significand is even (`isNearest_of_contains`). Rounding leads back to the
double from everywhere in it (`nearestUnits_eq_of_contains`).

Both follow from where the double lies on its grid. It reaches half a step to
each side, except that the double below a power of two belongs to the finer grid
of the binade below. Numbers from there on up to the power of two are rounded on
that finer grid, and reach it by a carry into the exponent.
-/
import Mathlib
import ExponentialHistogram.Decimal.Shortest
import ExponentialHistogram.Proofs.Binary64.Rounding

namespace ExponentialHistogram

/-- An integer at most one half away, and less than that if it is odd, is what a quotient is rounded
to. -/
theorem roundHalfEven_eq {num den n : ℕ} (hden : 0 < den) (hlow : 2 * (n * den) ≤ 2 * num + den)
    (hhigh : 2 * num ≤ 2 * (n * den) + den)
    (hodd : n % 2 = 1 → 2 * (n * den) < 2 * num + den ∧ 2 * num < 2 * (n * den) + den) :
    roundHalfEven num den = n := by
  have hsplit := Nat.div_add_mod' num den
  unfold roundHalfEven
  rcases Nat.lt_or_ge num (n * den) with hbelow | habove
  · -- The quotient is the integer before.
    obtain ⟨k, rfl⟩ : ∃ k, n = k + 1 := Nat.exists_eq_succ_of_ne_zero fun hzero => by
      rw [hzero, Nat.zero_mul] at hbelow
      exact Nat.not_lt_zero _ hbelow
    have hsucc : (k + 1) * den = k * den + den := Nat.succ_mul k den
    have hquotient : num / den = k := Nat.div_eq_of_lt_le (by omega) hbelow
    simp only [hquotient] at hsplit ⊢
    split
    · omega
    · split <;> omega
  · have hsucc : (n + 1) * den = n * den + den := Nat.succ_mul n den
    have hquotient : num / den = n := Nat.div_eq_of_lt_le habove (by omega)
    simp only [hquotient] at hsplit ⊢
    split
    · rfl
    · split <;> omega

/-- The same on a grid of `2 ^ shift`, in terms of the quotient. -/
theorem roundHalfEven_grid_eq {num den shift n : ℕ} (hden : 0 < den)
    (hlow : 2 * (n * 2 ^ shift : ℚ) ≤ 2 * (num / den) + 2 ^ shift)
    (hhigh : 2 * (num / den : ℚ) ≤ 2 * (n * 2 ^ shift) + 2 ^ shift)
    (hodd : n % 2 = 1 → 2 * (n * 2 ^ shift : ℚ) < 2 * (num / den) + 2 ^ shift ∧
      2 * (num / den : ℚ) < 2 * (n * 2 ^ shift) + 2 ^ shift) :
    roundHalfEven num (den * 2 ^ shift) = n := by
  have hpos : (0 : ℚ) < den := Nat.cast_pos.mpr hden
  have hnum : (num : ℚ) = num / den * den := (div_mul_cancel₀ _ hpos.ne').symm
  refine roundHalfEven_eq (Nat.mul_pos hden (Nat.two_pow_pos _)) ?_ ?_ fun h => ?_
  · rw [← @Nat.cast_le ℚ]
    push_cast
    linarith [mul_le_mul_of_nonneg_right hlow hpos.le]
  · rw [← @Nat.cast_le ℚ]
    push_cast
    linarith [mul_le_mul_of_nonneg_right hhigh hpos.le]
  · rw [← @Nat.cast_lt ℚ, ← @Nat.cast_lt ℚ]
    push_cast
    have hlow' := mul_lt_mul_of_pos_right (hodd h).1 hpos
    have hhigh' := mul_lt_mul_of_pos_right (hodd h).2 hpos
    constructor <;> linarith

namespace Binary64

variable {x y : Binary64} {shift multiple : ℕ}

/-! ## Where a double lies on its grid -/

/-- Larger doubles are a step of the grid away or more. -/
theorem OnGrid.add_le_units (hx : x.OnGrid shift multiple) (hy : y.isPositiveFinite = true)
    (hlt : x.bits.toNat < y.bits.toNat) : x.units + 2 ^ shift ≤ y.units := by
  have hfinite := ((isPositiveFinite_iff y).mp hy).2
  obtain ⟨next, hbits, hunits⟩ := hx.exists_succ (by omega)
  have hnext : next.isPositiveFinite = true := (isPositiveFinite_iff next).mpr (by omega)
  rw [← hunits, units_le_units_iff hnext hy]
  omega

/-- Smaller ones as well, but for a power of two only half a step. -/
theorem OnGrid.units_add_le (hx : x.OnGrid shift multiple) (hfinite : x.isPositiveFinite = true)
    (hy : y.isPositiveFinite = true) (hlt : y.bits.toNat < x.bits.toNat) :
    y.units + 2 ^ shift ≤ x.units ∨
      0 < shift ∧ multiple = 2 ^ 52 ∧ 2 * y.units + 2 ^ shift ≤ 2 * x.units := by
  obtain ⟨hpos, hinfinity⟩ := (isPositiveFinite_iff x).mp hfinite
  have hypos := ((isPositiveFinite_iff y).mp hy).1
  obtain ⟨pred, hbits, hunits⟩ := hx.exists_pred hpos hinfinity
  have hpred : pred.isPositiveFinite = true := (isPositiveFinite_iff pred).mpr (by omega)
  have hle : y.units ≤ pred.units := (units_le_units_iff hy hpred).mpr (by omega)
  omega

/-- The fields, from the place on the grid. -/
theorem OnGrid.fields (hx : x.OnGrid shift multiple) (hfinite : x.isPositiveFinite = true) :
    (multiple < 2 ^ 52 ∧ shift = 0 ∧ x.exponentField = 0 ∧ x.significand = multiple) ∨
      (2 ^ 52 ≤ multiple ∧ x.exponentField = shift + 1 ∧ x.significand + 2 ^ 52 = multiple) := by
  obtain ⟨hbits, -, hlow, hhigh⟩ := hx
  have hinfinity := ((isPositiveFinite_iff x).mp hfinite).2
  simp only [exponentField, significand]
  omega

theorem OnGrid.step_le_units (hx : x.OnGrid shift multiple) (hfinite : x.isPositiveFinite = true) :
    2 ^ shift ≤ x.units := by
  have hpos := ((isPositiveFinite_iff x).mp hfinite).1
  rw [hx.bits_eq] at hpos
  rw [hx.units_eq]
  refine Nat.le_mul_of_pos_left _ (Nat.pos_of_ne_zero fun hzero => ?_)
  rcases hx.fields hfinite with ⟨-, rfl, -, -⟩ | ⟨hnormal, -, -⟩ <;> omega

/-! ## The rounding interval -/

/-- A number, in quarters of a unit, lies in the interval. -/
structure RoundingInterval.Contains (i : RoundingInterval) (q : ℚ) : Prop where
  low_le : (i.low : ℚ) ≤ q
  le_high : q ≤ i.high
  ne_ends : i.closed = false → (i.low : ℚ) ≠ q ∧ q ≠ i.high

theorem RoundingInterval.holds_iff (i : RoundingInterval) {num den : ℕ} (hden : 0 < den) :
    i.holds num den = true ↔ i.Contains (num / den) := by
  have hpos : (0 : ℚ) < den := Nat.cast_pos.mpr hden
  have hle : ∀ n : ℕ, n * den ≤ num ↔ (n : ℚ) ≤ num / den := by
    intro n
    rw [le_div_iff₀ hpos]
    exact_mod_cast Iff.rfl
  have hge : ∀ n : ℕ, num ≤ n * den ↔ (num : ℚ) / den ≤ n := by
    intro n
    rw [div_le_iff₀ hpos]
    exact_mod_cast Iff.rfl
  unfold holds
  split
  · rename_i hclosed
    rw [Bool.and_eq_true, decide_eq_true_iff, decide_eq_true_iff, hle, hge]
    refine ⟨fun h => ⟨h.1, h.2, fun hopen => ?_⟩, fun h => ⟨h.low_le, h.le_high⟩⟩
    rw [hclosed] at hopen
    cases hopen
  · rename_i hopen
    rw [Bool.and_eq_true, decide_eq_true_iff, decide_eq_true_iff, ← Nat.not_le, ← Nat.not_le, hge,
      hle, not_le, not_le]
    refine ⟨fun h => ⟨h.1.le, h.2.le, fun _ => ⟨h.1.ne, h.2.ne⟩⟩, fun h => ?_⟩
    obtain ⟨hne, hne'⟩ := h.ne_ends (Bool.eq_false_iff.mpr hopen)
    exact ⟨lt_of_le_of_ne h.low_le hne, lt_of_le_of_ne h.le_high hne'⟩

/-- The interval, from the place on the grid. -/
theorem OnGrid.roundingInterval_eq (hx : x.OnGrid shift multiple)
    (hfinite : x.isPositiveFinite = true) :
    x.roundingInterval =
      { low := 4 * x.units - if 0 < shift ∧ multiple = 2 ^ 52 then 2 ^ shift else 2 * 2 ^ shift
        centre := 4 * x.units
        high := 4 * x.units + 2 * 2 ^ shift
        closed := multiple % 2 == 0 } := by
  unfold Binary64.roundingInterval
  rcases hx.fields hfinite with ⟨-, rfl, hfield, hsignificand⟩ | ⟨-, hfield, hsignificand⟩
  · simp [hfield, hsignificand]
  · have hbottom : (x.significand = 0 ∧ 1 < shift + 1) ↔ (0 < shift ∧ multiple = 2 ^ 52) := by
      omega
    have heven : x.significand % 2 = multiple % 2 := by omega
    simp only [hfield, hbottom, heven, Nat.add_sub_cancel]

/-- How far from a double on a grid a number can be that rounds to it. -/
structure Reaches (x : Binary64) (shift multiple : ℕ) (q : ℚ) : Prop where
  low : 2 * (x.units : ℚ) ≤ 2 * q + 2 ^ shift
  high : 2 * q ≤ 2 * x.units + 2 ^ shift
  odd : multiple % 2 = 1 → 2 * (x.units : ℚ) < 2 * q + 2 ^ shift ∧ 2 * q < 2 * x.units + 2 ^ shift
  bottom : 0 < shift → multiple = 2 ^ 52 → 4 * (x.units : ℚ) ≤ 4 * q + 2 ^ shift

theorem OnGrid.reaches (hx : x.OnGrid shift multiple) (hfinite : x.isPositiveFinite = true) {q : ℚ}
    (h : x.roundingInterval.Contains (4 * q)) : x.Reaches shift multiple q := by
  obtain ⟨hlow, hhigh, hends⟩ := h
  simp only [hx.roundingInterval_eq hfinite] at hlow hhigh hends
  obtain ⟨below, hbelow⟩ : ∃ below, below = if 0 < shift ∧ multiple = 2 ^ 52 then 2 ^ shift
    else 2 * 2 ^ shift := ⟨_, rfl⟩
  rw [← hbelow] at hlow hends
  have hle : (4 * x.units : ℚ) ≤ ((4 * x.units - below : ℕ) : ℚ) + below := by
    exact_mod_cast (le_tsub_add : 4 * x.units ≤ 4 * x.units - below + below)
  have hwidth : (below : ℚ) ≤ 2 * 2 ^ shift := by
    have : below ≤ 2 * 2 ^ shift := by
      rw [hbelow]
      split <;> omega
    exact_mod_cast this
  push_cast at hhigh hends
  constructor
  · linarith
  · linarith
  · intro hodd
    obtain ⟨hne, hne'⟩ := hends (by rw [hodd]; rfl)
    have hlt := lt_of_le_of_ne hlow hne
    have hlt' := lt_of_le_of_ne hhigh hne'
    constructor <;> linarith
  · intro hshift hbottom
    rw [if_pos ⟨hshift, hbottom⟩] at hbelow
    have hfine : (below : ℚ) = 2 ^ shift := by exact_mod_cast hbelow
    linarith

/-! ## The nearest double -/

/-- Any number that is not infinite and not a NaN. -/
def IsFinite (x : Binary64) : Prop := x.exponentField ≠ specialExponentField

/-- The positive double is as near to the number as any double, and if another one is as near it is
the one whose last bit is zero. -/
structure IsNearest (x : Binary64) (q : ℚ) : Prop where
  isPositiveFinite : x.isPositiveFinite = true
  abs_sub_le : ∀ y : Binary64, y.IsFinite → |x.value - q| ≤ |y.value - q|
  even : ∀ y : Binary64, y.IsFinite → y ≠ x → |y.value - q| = |x.value - q| → x.significand % 2 = 0

theorem IsFinite.value_nonpos (hy : y.IsFinite) (hnot : ¬ y.isPositiveFinite = true) :
    y.value ≤ 0 := by
  have hunit : (0 : ℚ) ≤ y.units / unitsPerOne :=
    div_nonneg (Nat.cast_nonneg _) (Nat.cast_nonneg _)
  rw [value, mul_div_assoc]
  rcases y.signField_eq_zero_or_one with hsign | hsign
  · have hzero : y.bits.toNat = 0 := by
      rw [isPositiveFinite_iff] at hnot
      simp only [IsFinite, exponentField, specialExponentField, signField] at hy hsign
      omega
    rw [units_of_bits_le (by omega), hzero, Nat.cast_zero, zero_div, mul_zero]
  · rw [hsign, pow_one]
    linarith

/-- Other doubles are a step of the grid away or more, zero and the negative ones too. Below a power
of two it may be half a step. -/
theorem OnGrid.away (hx : x.OnGrid shift multiple) (hfinite : x.isPositiveFinite = true)
    (hy : y.IsFinite) (hne : y ≠ x) :
    (x.units : ℚ) + 2 ^ shift ≤ y.value * unitsPerOne ∨
      y.value * unitsPerOne + 2 ^ shift ≤ x.units ∨
      0 < shift ∧ multiple = 2 ^ 52 ∧ 2 * (y.value * unitsPerOne) + 2 ^ shift ≤ 2 * x.units := by
  by_cases hpos : y.isPositiveFinite = true
  · rw [value_mul_unitsPerOne hpos]
    rcases Nat.lt_trichotomy x.bits.toNat y.bits.toNat with hlt | heq | hgt
    · exact Or.inl (by exact_mod_cast hx.add_le_units hpos hlt)
    · exact absurd (congrArg Binary64.mk (UInt64.toNat_inj.mp heq)).symm hne
    · exact Or.inr (by exact_mod_cast hx.units_add_le hfinite hpos hgt)
  · have hstep : (2 : ℚ) ^ shift ≤ x.units := by exact_mod_cast hx.step_le_units hfinite
    have hscaled := mul_nonpos_of_nonpos_of_nonneg (hy.value_nonpos hpos) unitsPerOne_cast_pos.le
    exact Or.inr (Or.inl (by linarith))

/-- A number below the middle of two is nearer to the lower one. -/
theorem abs_sub_le_of_le_middle {u v q : ℚ} (huv : u ≤ v) (hq : 2 * q ≤ u + v) :
    |u - q| ≤ |v - q| :=
  abs_le_abs (by linarith) (by linarith)

/-- A number above the middle of two is nearer to the upper one. -/
theorem abs_sub_le_of_middle_le {u v q : ℚ} (hvu : v ≤ u) (hq : u + v ≤ 2 * q) :
    |u - q| ≤ |v - q| := by
  rw [abs_sub_comm u, abs_sub_comm v]
  exact abs_le_abs (by linarith) (by linarith)

/-- What is as far from two different numbers is in their middle. -/
theorem eq_middle_of_abs_sub_eq {u v q : ℚ} (hne : v ≠ u) (h : |v - q| = |u - q|) :
    2 * q = u + v := by
  rcases abs_eq_abs.mp h with heq | heq
  · exact absurd (sub_left_inj.mp heq) hne
  · linarith

/-- Nothing that lies a step away is nearer. What is as near is half a step away from the number, and
then the double is even. -/
theorem Reaches.nearest {q v : ℚ} (h : x.Reaches shift multiple q)
    (hv : (x.units : ℚ) + 2 ^ shift ≤ v ∨ v + 2 ^ shift ≤ x.units ∨
      0 < shift ∧ multiple = 2 ^ 52 ∧ 2 * v + 2 ^ shift ≤ 2 * x.units) :
    |x.units - q| ≤ |v - q| ∧ (|v - q| = |x.units - q| → multiple % 2 = 0) := by
  obtain ⟨hlow, hhigh, hodd, hbottom⟩ := h
  have hstep : (0 : ℚ) < 2 ^ shift := by positivity
  rcases hv with habove | hbelow | ⟨hshift, heven, hhalf⟩
  · refine ⟨abs_sub_le_of_le_middle (by linarith) (by linarith), fun heq => ?_⟩
    have hmiddle := eq_middle_of_abs_sub_eq (fun h => by linarith) heq
    by_contra hne
    have := hodd (by omega)
    linarith
  · refine ⟨abs_sub_le_of_middle_le (by linarith) (by linarith), fun heq => ?_⟩
    have hmiddle := eq_middle_of_abs_sub_eq (fun h => by linarith) heq
    by_contra hne
    have := hodd (by omega)
    linarith
  · have := hbottom hshift heven
    exact ⟨abs_sub_le_of_middle_le (by linarith) (by linarith), fun _ => by omega⟩

/-- **A double is nearest to the numbers in its interval.** -/
theorem isNearest_of_contains (hx : x.isPositiveFinite = true) {q : ℚ}
    (h : x.roundingInterval.Contains (4 * (q * unitsPerOne))) : x.IsNearest q := by
  obtain ⟨shift, multiple, hgrid⟩ := exists_onGrid hx
  have hone := unitsPerOne_cast_pos
  have hnear : ∀ y : Binary64, y.IsFinite → y ≠ x →
      |x.value - q| ≤ |y.value - q| ∧ (|y.value - q| = |x.value - q| → multiple % 2 = 0) := by
    intro y hy hne
    have hscaled : ∀ v : ℚ, |v - q| = |v * unitsPerOne - q * unitsPerOne| / unitsPerOne := by
      intro v
      rw [← sub_mul, abs_mul, abs_of_pos hone, mul_div_cancel_right₀ _ hone.ne']
    have := (hgrid.reaches hx h).nearest (hgrid.away hx hy hne)
    rw [hscaled, hscaled, value_mul_unitsPerOne hx, div_le_div_iff_of_pos_right hone,
      div_left_inj' hone.ne']
    exact this
  have heven : multiple % 2 = 0 → x.significand % 2 = 0 := by
    have := hgrid.fields hx
    omega
  refine ⟨hx, ?_, fun y hy hne heq => heven ((hnear y hy hne).2 heq)⟩
  intro y hy
  rcases eq_or_ne y x with rfl | hne
  · exact le_rfl
  · exact (hnear y hy hne).1

/-! ## Rounding -/

theorem ofBitsNat_toNat (x : Binary64) : ofBitsNat x.bits.toNat = x :=
  congrArg mk (UInt64.ofNat_toNat)

theorem bitLength_sub_eq {n shift width : ℕ} (hhigh : n < 2 ^ (shift + width + 1))
    (hlow : 0 < shift → 2 ^ (shift + width) ≤ n) : bitLength n - (width + 1) = shift := by
  have hle := bitLength_le_iff.mpr hhigh
  rcases Nat.eq_zero_or_pos shift with rfl | hpos
  · omega
  · have hgt : ¬ bitLength n ≤ shift + width := by
      rw [bitLength_le_iff, Nat.not_lt]
      exact hlow hpos
    omega

/-- What a fraction is rounded to, given the grid that it is rounded on. -/
theorem nearestUnits_eq {num den n : ℕ} (hden : 0 < den) (hx : x.isPositiveFinite = true)
    (hbits : x.bits.toNat = shift * 2 ^ 52 + n) (hhigh : (num : ℚ) / den < 2 ^ 53 * 2 ^ shift)
    (hlow : 0 < shift → 2 ^ 52 * 2 ^ shift ≤ (num : ℚ) / den)
    (hround : roundHalfEven num (den * 2 ^ shift) = n) : nearestUnits num den = x := by
  have hpos : (0 : ℚ) < den := Nat.cast_pos.mpr hden
  have hshift : bitLength (num / den) - 53 = shift := by
    refine bitLength_sub_eq ?_ fun h => ?_
    · rw [div_lt_iff₀ hpos, mul_comm (2 ^ 53 : ℚ), ← pow_add] at hhigh
      rw [Nat.div_lt_iff_lt_mul hden]
      exact_mod_cast hhigh
    · have hle := hlow h
      rw [le_div_iff₀ hpos, mul_comm (2 ^ 52 : ℚ), ← pow_add] at hle
      rw [Nat.le_div_iff_mul_le hden]
      exact_mod_cast hle
  have hinfinity := ((isPositiveFinite_iff x).mp hx).2
  unfold nearestUnits
  simp only [hshift, hround, ← hbits, toNat_infinity, hinfinity, if_true, ofBitsNat_toNat]

/-- **Rounding leads back** to a double from everywhere in its interval. -/
theorem nearestUnits_eq_of_contains {num den : ℕ} (hden : 0 < den) (hx : x.isPositiveFinite = true)
    (h : x.roundingInterval.Contains (4 * (num / den))) : nearestUnits num den = x := by
  obtain ⟨shift, multiple, hgrid⟩ := exists_onGrid hx
  obtain ⟨hlow, hhigh, hodd, hbottom⟩ := hgrid.reaches hx h
  obtain ⟨hbits, hunits, hnormal, hmultiple⟩ := hgrid
  have hstep : (0 : ℚ) < 2 ^ shift := by positivity
  have hmultiple' : (multiple : ℚ) + 1 ≤ 2 ^ 53 := by exact_mod_cast hmultiple
  rw [hunits, Nat.cast_mul, Nat.cast_pow, Nat.cast_ofNat] at hlow hhigh hodd hbottom
  have hbinade : (num : ℚ) / den < 2 ^ 53 * 2 ^ shift := by nlinarith
  by_cases hsame : 0 < shift → 2 ^ 52 * 2 ^ shift ≤ (num : ℚ) / den
  · exact nearestUnits_eq hden hx hbits hbinade hsame (roundHalfEven_grid_eq hden hlow hhigh hodd)
  · -- The double is a power of two, and the number is rounded on the grid of the binade below.
    rw [Classical.not_imp, not_le] at hsame
    obtain ⟨hshift, hbelow⟩ := hsame
    obtain rfl : multiple = 2 ^ 52 := by
      by_contra hne
      have hgt : (2 : ℚ) ^ 52 + 1 ≤ multiple := by
        have := hnormal hshift
        exact_mod_cast (show 2 ^ 52 + 1 ≤ multiple by omega)
      nlinarith
    have hlow' := hbottom hshift rfl
    obtain ⟨finer, rfl⟩ : ∃ finer, shift = finer + 1 := ⟨shift - 1, by omega⟩
    have hfiner : (0 : ℚ) < 2 ^ finer := by positivity
    rw [pow_succ (2 : ℚ) finer] at hbelow hlow'
    push_cast at hlow'
    have hcarry : x.bits.toNat = finer * 2 ^ 52 + 2 ^ 53 := by omega
    refine nearestUnits_eq hden hx hcarry (by linarith) (fun _ => by linarith) ?_
    refine roundHalfEven_grid_eq hden ?_ ?_ fun hodd => absurd hodd (by decide)
    · push_cast
      linarith
    · push_cast
      linarith

end Binary64

end ExponentialHistogram
