/-
ExponentialHistogram.Proofs.Binary64.Decomposition — taking a double apart and
putting it together again.

The normalized shape of a double has the value of the double, and rounding up
gives the least double that is not below a number (`ceil_le_iff`). Both
directions of the round trip are read off these two facts, with no second look
at the bits:

* a double taken apart and put together is the same double, because it is the
  least double that is not below itself (`ceil_normalized`);
* a number put together and taken apart is the same number exactly if it is
  the value of a double, because numbers in normalized shape are determined by
  their value (`Normalized.normalized_ceil_iff`).

For subnormal numbers this says that the bits shifted out on the way back are
those that were shifted in, and that a carry into the smallest normal number
happens only to numbers between two doubles.
-/
import Mathlib
import ExponentialHistogram.Proofs.Binary64.Value

namespace ExponentialHistogram.Binary64

variable {x : Binary64} {m n : Normalized}

/-- The positive doubles that are powers of two have significand zero. -/
theorem isPowerOfTwo_iff (hx : x.isPositiveFinite = true) :
    x.isPowerOfTwo = true ↔ ∃ e : ℤ, x.value = 2 ^ e := by
  have hmagnitude : x.bits.toNat % 2 ^ 63 ≠ 0 := by
    rw [isPositiveFinite_iff] at hx
    omega
  have hfield : x.exponentField ≠ specialExponentField := by
    have hle := (fields_of_isPositiveFinite hx).2.2
    simp only [specialExponentField]
    omega
  simp [isPowerOfTwo, hmagnitude, hfield, ← value_normalized hx,
    Normalized.value_eq_two_zpow_iff x.normalized_significand_lt]

namespace Normalized

/-- The numbers that `ceil` is meant for: the exponent of some double, and 52 bits. -/
structure InRange (n : Normalized) : Prop where
  le_exponent : minSubnormalExponent ≤ n.exponent
  exponent_le : n.exponent ≤ maxNormalExponent
  significand_lt : n.significand < 2 ^ 52

/-- The order of exponents, and among equal exponents that of significands. -/
def LexLe (m n : Normalized) : Prop :=
  m.exponent < n.exponent ∨ m.exponent = n.exponent ∧ m.significand ≤ n.significand

/-- The number is the value of a double. -/
def IsRepresentable (n : Normalized) : Prop :=
  ∃ x : Binary64, x.isPositiveFinite = true ∧ x.value = n.value

/-- Numbers in normalized shape are determined by their value. -/
theorem eq_of_value_eq (hm : m.significand < 2 ^ 52) (hn : n.significand < 2 ^ 52)
    (h : m.value = n.value) : m = n := by
  have hle := (value_le_value_iff hm hn).mp h.le
  have hge := (value_le_value_iff hn hm).mp h.ge
  obtain ⟨e, significand⟩ := m
  obtain ⟨e', significand'⟩ := n
  simp only [mk.injEq] at hle hge ⊢
  omega

theorem isPositiveFinite_ceil (hn : n.InRange) : n.ceil.isPositiveFinite = true :=
  (ceil_le_iff hn.significand_lt hn.le_exponent hn.exponent_le).1

/-- The rounded number is the least double that is not below the number. -/
theorem ceil_value_le_iff (hn : n.InRange) (hx : x.isPositiveFinite = true) :
    n.ceil.value ≤ x.value ↔ n.value ≤ x.value :=
  (ceil_le_iff hn.significand_lt hn.le_exponent hn.exponent_le).2 x hx

theorem value_le_ceil_value (hn : n.InRange) : n.value ≤ n.ceil.value :=
  (ceil_value_le_iff hn (isPositiveFinite_ceil hn)).mp le_rfl

/-- Rounding up keeps the order. -/
theorem ceil_value_mono (hm : m.InRange) (hn : n.InRange) (h : m.LexLe n) :
    m.ceil.value ≤ n.ceil.value := by
  have hvalue : m.value ≤ n.value := (value_le_value_iff hm.significand_lt hn.significand_lt).mpr h
  rw [ceil_value_le_iff hm (isPositiveFinite_ceil hn)]
  exact hvalue.trans (value_le_ceil_value hn)

/-- What a number is rounded to is the double of that value, if there is one. -/
theorem ceil_eq_of_value_eq (hn : n.InRange) (hx : x.isPositiveFinite = true)
    (h : x.value = n.value) : n.ceil = x := by
  refine Binary64.eq_of_value_eq (isPositiveFinite_ceil hn) hx (le_antisymm ?_ ?_)
  · exact (ceil_value_le_iff hn hx).mpr h.ge
  · exact h.le.trans (value_le_ceil_value hn)

/-- **Nothing is lost exactly if the number is a double.** -/
theorem normalized_ceil_iff (hn : n.InRange) : n.ceil.normalized = n ↔ n.IsRepresentable := by
  constructor
  · intro h
    refine ⟨n.ceil, isPositiveFinite_ceil hn, ?_⟩
    rw [← value_normalized (isPositiveFinite_ceil hn), h]
  · rintro ⟨x, hx, hvalue⟩
    rw [ceil_eq_of_value_eq hn hx hvalue]
    exact eq_of_value_eq x.normalized_significand_lt hn.significand_lt
      ((value_normalized hx).trans hvalue)

end Normalized

theorem inRange_normalized (hx : x.isPositiveFinite = true) : x.normalized.InRange where
  le_exponent := (normalized_exponent_mem hx).1
  exponent_le := (normalized_exponent_mem hx).2
  significand_lt := x.normalized_significand_lt

/-- **A double taken apart and put together is the same double.** -/
theorem ceil_normalized (hx : x.isPositiveFinite = true) : x.normalized.ceil = x :=
  Normalized.ceil_eq_of_value_eq (inRange_normalized hx) hx (value_normalized hx).symm

/-- **Doubles and normalized numbers**, in both directions. A positive finite double has a normalized
shape with its value, which tells the powers of two and gives the double back. A normalized number
is rounded up to the least double that is not below it, in the order of the numbers, and is itself
given back exactly if it is a double. -/
theorem normalized_ceil_roundTrip :
    (∀ x : Binary64, x.isPositiveFinite = true →
      (-1074 ≤ x.normalized.exponent ∧ x.normalized.exponent ≤ 1023) ∧
      x.normalized.significand < 2 ^ 52 ∧
      x.value = 2 ^ x.normalized.exponent * (1 + x.normalized.significand / 2 ^ 52) ∧
      (x.isPowerOfTwo = true ↔ ∃ e : ℤ, x.value = 2 ^ e) ∧
      x.normalized.ceil = x) ∧
    ∀ n : Normalized, n.InRange →
      n.ceil.isPositiveFinite = true ∧
      2 ^ n.exponent * (1 + n.significand / 2 ^ 52) ≤ n.ceil.value ∧
      (∀ x : Binary64, x.isPositiveFinite = true →
        2 ^ n.exponent * (1 + n.significand / 2 ^ 52) ≤ x.value → n.ceil.value ≤ x.value) ∧
      (∀ n' : Normalized, n'.InRange → n.LexLe n' → n.ceil.value ≤ n'.ceil.value) ∧
      (n.ceil.normalized = n ↔ n.IsRepresentable) := by
  constructor
  · intro x hx
    exact ⟨normalized_exponent_mem hx, x.normalized_significand_lt, (value_normalized hx).symm,
      isPowerOfTwo_iff hx, ceil_normalized hx⟩
  · intro n hn
    refine ⟨Normalized.isPositiveFinite_ceil hn, Normalized.value_le_ceil_value hn, ?_, ?_,
      Normalized.normalized_ceil_iff hn⟩
    · intro x hx hle
      exact (Normalized.ceil_value_le_iff hn hx).mpr hle
    · intro n' hn' hlex
      exact Normalized.ceil_value_mono hn hn' hlex

/-- The largest subnormal number comes back. The number between it and the smallest normal one is
rounded up to that one and does not. -/
theorem normalized_ceil_roundTrip_smallestNormal :
    (⟨0x000FFFFFFFFFFFFF⟩ : Binary64).isPositiveFinite = true ∧
      (⟨0x000FFFFFFFFFFFFF⟩ : Binary64).normalized.ceil = ⟨0x000FFFFFFFFFFFFF⟩ ∧
      (⟨-1023, 2 ^ 52 - 1⟩ : Normalized).InRange ∧
      (⟨-1023, 2 ^ 52 - 1⟩ : Normalized).ceil = ⟨0x0010000000000000⟩ ∧
      ¬ (⟨-1023, 2 ^ 52 - 1⟩ : Normalized).IsRepresentable := by
  have hfinite : (⟨0x000FFFFFFFFFFFFF⟩ : Binary64).isPositiveFinite = true := by decide
  have hrange : (⟨-1023, 2 ^ 52 - 1⟩ : Normalized).InRange := ⟨by decide, by decide, by decide⟩
  obtain ⟨-, -, -, -, hback⟩ := normalized_ceil_roundTrip.1 _ hfinite
  obtain ⟨-, -, -, -, hrepresentable⟩ := normalized_ceil_roundTrip.2 _ hrange
  refine ⟨hfinite, hback, hrange, by decide, ?_⟩
  rw [← hrepresentable]
  decide

end ExponentialHistogram.Binary64
