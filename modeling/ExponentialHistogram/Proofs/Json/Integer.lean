/-
ExponentialHistogram.Proofs.Json.Integer — integers in JSON.

An integer is a numeral without fraction and exponent (`Numeral.ofInt`). Its text
spells that numeral (`spells_toString`), and its value is the integer again
(`value?_ofInt`).
-/
import Mathlib
import ExponentialHistogram.Json.Number
import ExponentialHistogram.Proofs.Json.Spelling
import ExponentialHistogram.Proofs.Text.Digits

namespace ExponentialHistogram.Json

/-- The numeral of an integer. Zero has no sign. -/
def Numeral.ofInt (n : ℤ) : Numeral := ⟨decide (n < 0), Nat.toDigits 10 n.natAbs, [], none⟩

@[simp]
theorem digitsValue_toDigits (n : ℕ) : digitsValue (Nat.toDigits 10 n) = n := by
  have hdigits : Nat.ofDigitChars 10 (Nat.toDigits 10 n) 0 = n := Nat.ofDigitChars_ten_toDigits
  rwa [Nat.ofDigitChars_eq_foldl] at hdigits

/-- A number other than zero does not begin with the digit zero. -/
theorem head?_toDigits {n : ℕ} (hne : n ≠ 0) : (Nat.toDigits 10 n).head? ≠ some '0' := by
  induction n using Nat.strong_induction_on with
  | _ n ih =>
    rw [Nat.toDigits_eq_if (by decide)]
    split
    · rename_i hlt
      have hall : ∀ d < 10, d ≠ 0 → Nat.digitChar d ≠ '0' := by decide
      simpa using hall n hlt hne
    · rename_i hge
      rw [List.head?_append_of_ne_nil _ Nat.toDigits_ne_nil]
      exact ih (n / 10) (by omega) (by omega)

theorem isDigits_toDigits (n : ℕ) : IsDigits (Nat.toDigits 10 n) where
  ne_nil := Nat.toDigits_ne_nil
  isDigit := Settings.isDigit_of_mem_toDigits

/-- **The text of an integer** spells its numeral. -/
theorem spells_toString (n : ℤ) : (Numeral.ofInt n).Spells (toString n).toList := by
  have hzero : (Nat.toDigits 10 n.natAbs).head? = some '0' → Nat.toDigits 10 n.natAbs = ['0'] := by
    intro hhead
    by_cases hne : n.natAbs = 0
    · rw [hne]
      rfl
    · exact absurd hhead (head?_toDigits hne)
  have hspells (negative : Bool) : Numeral.Spells ⟨negative, Nat.toDigits 10 n.natAbs, [], none⟩
      ((if negative then ['-'] else []) ++ Nat.toDigits 10 n.natAbs) := by
    have hintro := @Numeral.Spells.intro negative _ _ _ _ _ (isDigits_toDigits n.natAbs) hzero
      .nothing .nothing
    rwa [List.append_nil, List.append_nil] at hintro
  rw [Settings.toList_toString_int, Numeral.ofInt]
  split
  · rename_i hnonneg
    rw [decide_eq_false (not_lt.mpr hnonneg), show n.toNat = n.natAbs by omega]
    exact hspells false
  · rename_i hneg
    rw [decide_eq_true (not_le.mp hneg), show (-n).toNat = n.natAbs by omega]
    exact hspells true

/-- **The value of the numeral** is the integer, as long as it fits in 64 bits. -/
theorem value?_ofInt {n : ℤ} (hlow : -2 ^ 63 ≤ n) (hhigh : n < 2 ^ 64) :
    (Numeral.ofInt n).value? = some (.integer n) := by
  rw [Numeral.value?, Numeral.ofInt]
  simp only [digitsValue_toDigits]
  by_cases hneg : n < 0
  · have hpos : 0 < n.natAbs := by omega
    have hle : n.natAbs ≤ 2 ^ 63 := by omega
    simp [hneg, hpos, hle, abs_of_neg hneg]
  · have hlt : n.natAbs < 2 ^ 64 := by omega
    simp [hneg, hlt, abs_of_nonneg (not_lt.mp hneg)]

end ExponentialHistogram.Json
