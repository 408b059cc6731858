/-
ExponentialHistogram.Proofs.Threshold.Root — exact roots give thresholds.

Three facts, one for each stage of `leastAttaining`:

* `shrinkRoot` is Newton's iteration and stops at the integer square root
  (`floorSqrt_eq_sqrt`), so roots taken one after the other are adjoint to the
  power (`le_nestedRoot_iff`);
* raising goes up to the threshold and leaves what is above it alone
  (`raiseTo_eq`);
* lowering goes down to the threshold (`lowerTo_eq`).

Where the roots land therefore does not matter for the result
(`isThreshold_leastAttaining`), only for how long the correction takes.
-/
import Mathlib
import ExponentialHistogram.Proofs.Binary64.Value
import ExponentialHistogram.Proofs.Threshold.Order
import ExponentialHistogram.Threshold.Root

namespace ExponentialHistogram.Threshold

/-! ## Integer square roots -/

/-- A better guess is still not below the root, and a guess that does not get better is not above
it. -/
theorem shrinkRoot_eq_sqrt {n guess : Nat} (hn : 0 < n) (hguess : 0 < guess)
    (habove : n < (guess + 1) ^ 2) : shrinkRoot n guess = Nat.sqrt n := by
  fun_induction shrinkRoot n guess with
  | case1 guess better hshrinks ih =>
    have hbetter : n < (better + 1) ^ 2 := by
      have := Nat.nthRoot.lt_pow_go_succ_aux (a := n) (n := 1) hguess.ne'
      rwa [pow_one, one_mul, Nat.add_comm (n / guess)] at this
    have hpos : 0 < better := by
      rcases Nat.lt_or_ge guess 2 with hone | htwo
      · obtain rfl : guess = 1 := by omega
        simp only [Nat.div_one, better]
        omega
      · exact Nat.div_pos (Nat.le_add_right_of_le htwo) (by decide)
    exact ih hpos hbetter
  | case2 guess better hstays =>
    have hle : guess ≤ n / guess := by
      simp only [better] at hstays
      omega
    rw [Nat.le_div_iff_mul_le hguess] at hle
    exact Nat.eq_sqrt'.mpr ⟨by rwa [pow_two], habove⟩

theorem floorSqrt_eq_sqrt (n : Nat) : floorSqrt n = Nat.sqrt n := by
  unfold floorSqrt
  split
  · rename_i hzero
    rw [hzero, Nat.sqrt_zero]
  · rename_i hne
    have hlen : n < 2 ^ bitLength n := bitLength_le_iff.mp le_rfl
    refine shrinkRoot_eq_sqrt (by omega) (Nat.two_pow_pos _) ?_
    calc n < 2 ^ bitLength n := hlen
      _ ≤ 2 ^ ((bitLength n + 1) / 2 * 2) := Nat.pow_le_pow_right (by decide) (by omega)
      _ = (2 ^ ((bitLength n + 1) / 2)) ^ 2 := Nat.pow_mul ..
      _ ≤ (2 ^ ((bitLength n + 1) / 2) + 1) ^ 2 := Nat.pow_le_pow_left (by omega) 2

/-- **Nested square roots are one root**, rounded down once. -/
theorem le_nestedRoot_iff {k times n : Nat} : k ≤ nestedRoot times n ↔ k ^ 2 ^ times ≤ n := by
  induction times generalizing n with
  | zero => rw [nestedRoot, Nat.pow_zero, Nat.pow_one]
  | succ times ih =>
    rw [nestedRoot, ih, floorSqrt_eq_sqrt, Nat.le_sqrt', ← Nat.pow_mul, Nat.pow_succ]

/-! ## Correcting a candidate -/

variable {m scale position candidate : Nat}

/-- The target itself attains the position, so something least does. -/
theorem exists_isThreshold (scale position : Nat) : ∃ m, IsThreshold m scale position := by
  have hattained : ∃ m, Attains m scale position :=
    ⟨2 ^ target scale position, Nat.le_self_pow (Nat.two_pow_pos scale).ne' _⟩
  exact ⟨Nat.find hattained, Nat.find_spec hattained, fun n hn => Nat.find_min' hattained hn⟩

/-- A candidate whose power is below the goal is below the goal itself. -/
theorem raiseTo_guard_iff :
    (candidate < 2 ^ target scale position ∧
      candidate ^ 2 ^ scale < 2 ^ target scale position) ↔ ¬ Attains candidate scale position := by
  rw [Attains, Nat.not_le]
  exact ⟨And.right, fun h =>
    ⟨(Nat.le_self_pow (Nat.two_pow_pos scale).ne' candidate).trans_lt h, h⟩⟩

theorem raiseTo_eq (h : IsThreshold m scale position) (candidate : Nat) :
    raiseTo (2 ^ target scale position) (2 ^ scale) candidate = max candidate m := by
  fun_induction raiseTo (2 ^ target scale position) (2 ^ scale) candidate with
  | case1 candidate hguard ih =>
    rw [raiseTo_guard_iff, h.attains_iff] at hguard
    rw [ih]
    omega
  | case2 candidate hguard =>
    rw [raiseTo_guard_iff, h.attains_iff] at hguard
    omega

theorem lowerTo_eq (h : IsThreshold m scale position) :
    ∀ {candidate : Nat}, m ≤ candidate →
      lowerTo (2 ^ target scale position) (2 ^ scale) candidate = m
  | 0, hle => by
      rw [lowerTo]
      omega
  | below + 1, hle => by
      have hbelow : below ^ 2 ^ scale < 2 ^ target scale position ↔ below < m := by
        rw [← Nat.not_le, ← Nat.not_le, ← h.attains_iff, Attains]
      rw [lowerTo]
      split
      · rename_i hstop
        rw [hbelow] at hstop
        omega
      · rename_i hgo
        rw [hbelow] at hgo
        exact lowerTo_eq h (by omega)

/-- **The corrected root is the threshold**, at every position. -/
theorem isThreshold_leastAttaining (scale position : Nat) :
    IsThreshold (leastAttaining scale position) scale position := by
  obtain ⟨m, hm⟩ := exists_isThreshold scale position
  have heq : leastAttaining scale position = m := by
    unfold leastAttaining
    simp only [raiseTo_eq hm]
    exact lowerTo_eq hm (by omega)
  rwa [heq]

/-- Within a table the exact method gives the significand of the threshold. -/
theorem IsThreshold.rootEntry_eq_some {significand : Nat}
    (h : IsThreshold (2 ^ 52 + significand) scale position) (hscale : scale ≤ 52)
    (hposition : position < 2 ^ scale) :
    rootEntry? scale position = some significand := by
  have heq := (isThreshold_leastAttaining scale position).unique h
  have hbound := h.lt_two_pow hscale hposition
  unfold rootEntry?
  rw [if_neg (by omega), heq]
  simp only [Nat.add_sub_cancel_left]
  rw [if_pos (by omega)]

end ExponentialHistogram.Threshold
