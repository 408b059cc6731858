/-
ExponentialHistogram.Proofs.Decimal.Shortest — the shortest decimal reads back.

Every decimal that the search for the fewest digits comes up with lies in the
rounding interval of the double (`decimalOfLength?_contains`), and it comes up
with one: seventeen digits are enough, because then a step of the decimal grid is
at most one part in `10 ^ 16` of the double, and the interval is wider than that
(`step_lt_width`). Of two neighbours on such a grid, one on each side of the
double, not both can lie outside.

A fraction equal to the shortest decimal is therefore nearest to the double, and
is rounded to it (`ofRatio_eq_of_shortest`).
-/
import Mathlib
import ExponentialHistogram.Proofs.Decimal.Interval

namespace ExponentialHistogram

/-- The number that a decimal is. -/
def Decimal.value (d : Decimal) : ℚ := d.digits * 10 ^ d.exponent

/-! ## Decimal lengths -/

theorem lt_pow_decimalLength (n : ℕ) : n < 10 ^ decimalLength n := by
  fun_induction decimalLength n with
  | case1 => decide
  | case2 n hne ih =>
    rw [Nat.pow_succ]
    omega

theorem pow_decimalLength_le {n : ℕ} (hpos : 0 < n) : 10 ^ decimalLength n ≤ 10 * n := by
  fun_induction decimalLength n with
  | case1 => exact absurd hpos (Nat.lt_irrefl 0)
  | case2 n hne ih =>
    rcases Nat.eq_zero_or_pos (n / 10) with hzero | hpos'
    · rw [hzero, decimalLength, if_pos rfl]
      omega
    · have := ih hpos'
      rw [Nat.pow_succ]
      omega

namespace Binary64

variable {x : Binary64} {tie : TieRule} {shift multiple : ℕ}

/-- The leading decimal digit does not exceed the number. -/
theorem ten_zpow_decimalExponent_le (hpos : 0 < x.units) :
    (10 : ℚ) ^ x.decimalExponent * unitsPerOne ≤ x.units := by
  have hone := unitsPerOne_pos
  unfold decimalExponent
  split
  · rename_i hle
    have hten := pow_decimalLength_le (Nat.div_pos hle hone)
    have hunits : 10 ^ decimalLength (x.units / unitsPerOne) * unitsPerOne ≤ 10 * x.units :=
      (Nat.mul_le_mul_right _ hten).trans (by
        rw [Nat.mul_assoc]
        exact Nat.mul_le_mul_left _ (Nat.div_mul_le_self _ _))
    have hunits' : (10 : ℚ) ^ decimalLength (x.units / unitsPerOne) * unitsPerOne ≤ 10 * x.units := by
      exact_mod_cast hunits
    rw [zpow_sub_one₀ (by norm_num), zpow_natCast]
    linarith
  · have hlt := lt_pow_decimalLength ((unitsPerOne - 1) / x.units)
    rw [Nat.div_lt_iff_lt_mul hpos] at hlt
    have hunits : unitsPerOne ≤ 10 ^ decimalLength ((unitsPerOne - 1) / x.units) * x.units := by
      omega
    rw [zpow_neg, zpow_natCast, inv_mul_le_iff₀ (by positivity)]
    exact_mod_cast hunits

/-! ## Seventeen digits -/

/-- The interval is wider than one part in `10 ^ 16` of the double. -/
theorem units_lt_width (hx : x.isPositiveFinite = true) :
    4 * x.units + 10 ^ 16 * x.roundingInterval.low < 10 ^ 16 * x.roundingInterval.high := by
  obtain ⟨shift, multiple, hgrid⟩ := exists_onGrid hx
  have hstep := hgrid.step_le_units hx
  have hpos := Nat.two_pow_pos shift
  have hbound : x.units < 2 ^ 53 * 2 ^ shift := by
    rw [hgrid.units_eq]
    exact Nat.mul_lt_mul_of_pos_right hgrid.multiple_lt hpos
  rw [hgrid.roundingInterval_eq hx]
  dsimp only
  split
  · -- Below a power of two the interval is shorter, but the double is small for its binade.
    rename_i hbottom
    have hunits : x.units = 2 ^ 52 * 2 ^ shift := hbottom.2 ▸ hgrid.units_eq
    omega
  · omega

/-- The double lies inside. -/
theorem centre_mem (hx : x.isPositiveFinite = true) :
    x.roundingInterval.low < 4 * x.units ∧ 4 * x.units < x.roundingInterval.high := by
  obtain ⟨shift, multiple, hgrid⟩ := exists_onGrid hx
  have hstep := hgrid.step_le_units hx
  have hpos := Nat.two_pow_pos shift
  rw [hgrid.roundingInterval_eq hx]
  dsimp only
  split <;> omega

/-! ## The decimals on a grid -/

/-- One step of the decimal grid, in quarter units. -/
theorem step_div_scale (place : ℤ) :
    ((4 * unitsPerOne * 10 ^ place.toNat : ℕ) : ℚ) / (10 ^ (-place).toNat : ℕ)
      = 4 * (10 ^ place * unitsPerOne) := by
  push_cast
  obtain ⟨n, rfl | rfl⟩ := place.eq_nat_or_neg
  · rw [Int.toNat_natCast, Int.toNat_neg_natCast, pow_zero, div_one, zpow_natCast]
    ring
  · rw [neg_neg, Int.toNat_natCast, Int.toNat_neg_natCast, pow_zero, mul_one, zpow_neg,
      zpow_natCast]
    ring

theorem holds_step_iff (i : RoundingInterval) (n : ℕ) (place : ℤ) :
    i.holds (n * (4 * unitsPerOne * 10 ^ place.toNat)) (10 ^ (-place).toNat) = true ↔
      i.Contains (4 * (n * 10 ^ place * unitsPerOne)) := by
  rw [i.holds_iff (by positivity), Nat.cast_mul, mul_div_assoc, step_div_scale]
  ring_nf

/-- A decimal with one digit more than the others is written with a single one. -/
theorem value_carry (below count : ℕ) (place : ℤ) :
    (if below + 1 = 10 ^ count then ⟨1, place + count⟩ else ⟨below + 1, place⟩ : Decimal).value
      = (below + 1 : ℕ) * 10 ^ place := by
  split
  · rename_i hcarry
    rw [hcarry, Decimal.value, zpow_add₀ (by norm_num), zpow_natCast]
    push_cast
    ring
  · rfl

/-- Whatever decimal is found lies in the interval. -/
theorem decimalOfLength?_contains {count : ℕ} {d : Decimal}
    (h : x.decimalOfLength? tie count = some d) :
    x.roundingInterval.Contains (4 * (d.value * unitsPerOne)) := by
  have hlower : ∀ place n, x.roundingInterval.holds (n * (4 * unitsPerOne * 10 ^ place.toNat))
      (10 ^ (-place).toNat) = true →
      x.roundingInterval.Contains (4 * ((⟨n, place⟩ : Decimal).value * unitsPerOne)) :=
    fun place n hholds => (holds_step_iff _ n place).mp hholds
  have hupper : ∀ place n, x.roundingInterval.holds ((n + 1) * (4 * unitsPerOne * 10 ^ place.toNat))
      (10 ^ (-place).toNat) = true → x.roundingInterval.Contains (4 * ((if n + 1 = 10 ^ count then
        ⟨1, place + count⟩ else ⟨n + 1, place⟩ : Decimal).value * unitsPerOne)) := by
    intro place n hholds
    rw [value_carry]
    exact (holds_step_iff _ (n + 1) place).mp hholds
  simp only [decimalOfLength?] at h
  split at h
  · cases h
  · rename_i hholds _
    cases h
    exact hlower _ _ hholds
  · rename_i _ hholds
    cases h
    exact hupper _ _ hholds
  · rename_i hholds hholds'
    have hlower := hlower _ _ hholds
    have hupper := hupper _ _ hholds'
    split at h
    · cases h
      exact hlower
    · split at h
      · cases h
        exact hupper
      · cases tie with
        | up =>
          cases h
          exact hupper
        | toEven =>
          simp only at h
          split at h
          · cases h
            exact hlower
          · cases h
            exact hupper

theorem RoundingInterval.le_of_holds_eq_false {i : RoundingInterval} {num den : ℕ}
    (h : i.holds num den = false) : num ≤ i.low * den ∨ i.high * den ≤ num := by
  unfold holds at h
  split at h <;> simp only [Bool.and_eq_false_iff, decide_eq_false_iff_not] at h <;> omega

/-- If neither of two neighbours on a grid lies in the interval, it is no wider than a step. -/
theorem high_le_of_holds_eq_false (hx : x.isPositiveFinite = true) {step scale : ℕ}
    (hstep : 0 < step) (hscale : 0 < scale)
    (hlower : x.roundingInterval.holds (4 * x.units * scale / step * step) scale = false)
    (hupper : x.roundingInterval.holds ((4 * x.units * scale / step + 1) * step) scale = false) :
    x.roundingInterval.high * scale ≤ x.roundingInterval.low * scale + step := by
  obtain ⟨hlow, hhigh⟩ := centre_mem hx
  have hlow' := Nat.mul_lt_mul_of_pos_right hlow hscale
  have hhigh' := Nat.mul_lt_mul_of_pos_right hhigh hscale
  have hbelow := Nat.div_mul_le_self (4 * x.units * scale) step
  have habove : 4 * x.units * scale < _ := Nat.lt_div_mul_add hstep
  have hlower := RoundingInterval.le_of_holds_eq_false hlower
  have hupper := RoundingInterval.le_of_holds_eq_false hupper
  rw [Nat.succ_mul] at hupper
  omega

/-- With seventeen digits a step is at most one part in `10 ^ 16`. -/
theorem step_mul_le (hpos : 0 < x.units) {place : ℤ} (hplace : place + 16 = x.decimalExponent) :
    4 * unitsPerOne * 10 ^ place.toNat * 10 ^ 16 ≤ 4 * x.units * 10 ^ (-place).toNat := by
  have hscale : (0 : ℚ) < (10 ^ (-place).toNat : ℕ) := by positivity
  have hstep := step_div_scale place
  rw [div_eq_iff hscale.ne'] at hstep
  have hleading := ten_zpow_decimalExponent_le hpos
  rw [← hplace, zpow_add₀ (by norm_num), zpow_ofNat] at hleading
  rw [← @Nat.cast_le ℚ, Nat.cast_mul, hstep, Nat.cast_mul (4 * x.units)]
  have := mul_le_mul_of_nonneg_right hleading hscale.le
  push_cast at this ⊢
  linarith

/-- With seventeen digits a decimal is found. -/
theorem exists_decimalOfLength? (hx : x.isPositiveFinite = true) (tie : TieRule) :
    ∃ d, x.decimalOfLength? tie 17 = some d := by
  rw [← Option.isSome_iff_exists, Option.isSome_iff_ne_none]
  intro hnone
  simp only [decimalOfLength?] at hnone
  split at hnone
  · rename_i hlower hupper
    generalize hplace : x.decimalExponent - ((17 : ℕ) - 1 : ℤ) = place at hlower hupper
    have hpos : 0 < x.units := Nat.pos_of_ne_zero fun hzero => by
      have := centre_mem hx
      omega
    have hscale : 0 < 10 ^ (-place).toNat := Nat.pow_pos (by decide)
    have hstep : 0 < 4 * unitsPerOne * 10 ^ place.toNat :=
      Nat.mul_pos (Nat.mul_pos (by decide) unitsPerOne_pos) (Nat.pow_pos (by decide))
    have hwidth := high_le_of_holds_eq_false hx hstep hscale hlower hupper
    have hshort := step_mul_le hpos (show place + 16 = x.decimalExponent by omega)
    have hwide := Nat.mul_lt_mul_of_pos_right (units_lt_width hx) hscale
    generalize 4 * unitsPerOne * 10 ^ place.toNat = step at *
    generalize 10 ^ (-place).toNat = scale at *
    linarith
  · cases hnone
  · cases hnone
  · split at hnone
    · cases hnone
    · split at hnone
      · cases hnone
      · cases tie with
        | up => cases hnone
        | toEven =>
          simp only at hnone
          split at hnone <;> cases hnone

/-- The shortest decimal lies in the rounding interval. -/
theorem shortest_contains (hx : x.isPositiveFinite = true) (tie : TieRule) :
    x.roundingInterval.Contains (4 * ((x.shortest tie).value * unitsPerOne)) := by
  obtain ⟨d, hd⟩ := exists_decimalOfLength? hx tie
  unfold shortest
  cases hfound : (List.range 17).findSome? fun n => x.decimalOfLength? tie (n + 1) with
  | none =>
    rw [List.findSome?_eq_none_iff] at hfound
    have := hfound 16 (by decide)
    rw [hd] at this
    cases this
  | some d =>
    obtain ⟨n, -, hn⟩ := List.exists_of_findSome?_eq_some hfound
    exact decimalOfLength?_contains hn

/-- **The shortest decimal reads back.** A fraction that is equal to it is nearest to the double, and
rounded to it. -/
theorem ofRatio_eq_of_shortest (hx : x.isPositiveFinite = true) {num den : ℕ} (hden : 0 < den)
    (h : (num : ℚ) / den = (x.shortest tie).value) :
    ofRatio num den = x ∧ x.IsNearest (num / den) := by
  have hcontains := shortest_contains hx tie
  rw [← h] at hcontains
  refine ⟨nearestUnits_eq_of_contains hden hx ?_, isNearest_of_contains hx hcontains⟩
  rw [Nat.cast_mul, mul_div_right_comm]
  exact hcontains

end Binary64

end ExponentialHistogram
