/-
ExponentialHistogram.Proofs.Decimal.Positional — doubles read back from their
text.

A decimal text is read as a fraction: the digits without the point over a power of
ten (`decimal?`). Reading a decimal that is written without an exponent gives back
its value (`decimal?_positional`), wherever the point is: behind zeros that were
filled in, inside the digits, or in front of all of them. So the fraction read from
the text of a positive double is the shortest decimal, and rounds to the double
(`decimal?_positional_double`).
-/
import Mathlib
import ExponentialHistogram.Decimal.Positional
import ExponentialHistogram.Proofs.Decimal.Shortest
import ExponentialHistogram.Proofs.Text.Digits

namespace ExponentialHistogram

open Settings (digits? digits?_eq_ofDigitChars isDigit_of_digits? isDigit_of_mem_toDigits)

/-! ## Reading a decimal -/

/-- A number as it stands in a decimal text. -/
structure Fraction where
  num : Nat
  den : Nat

namespace Fraction

def value (f : Fraction) : ℚ := f.num / f.den

/-- The nearest double. -/
def toBinary64 (f : Fraction) : Binary64 := .ofRatio f.num f.den

end Fraction

/-- A decimal number without sign and exponent. A point has digits on both sides. -/
def decimal? (cs : List Char) : Option Fraction :=
  let whole := cs.takeWhile (· ≠ '.')
  match cs.dropWhile (· ≠ '.') with
  | [] => do return ⟨← digits? whole, 1⟩
  | _ :: places => do
    guard (whole ≠ [] ∧ places ≠ [])
    return ⟨← digits? (whole ++ places), 10 ^ places.length⟩

/-- There is nothing but digits and a point. -/
theorem mem_of_decimal? {cs : List Char} {f : Fraction} (h : decimal? cs = some f) :
    ∀ c ∈ cs, c = '.' ∨ c.isDigit = true := by
  intro c hc
  rw [← List.takeWhile_append_dropWhile (p := (· ≠ '.')) (l := cs)] at hc
  simp only [decimal?] at h
  split at h
  · rename_i hdrop
    obtain ⟨n, hn, -⟩ := Option.bind_eq_some_iff.mp h
    rw [hdrop, List.append_nil] at hc
    exact Or.inr (isDigit_of_digits? hn c hc)
  · rename_i point places hdrop
    have hpoint := List.head?_dropWhile_not (· ≠ '.') cs
    rw [hdrop] at hpoint hc
    obtain ⟨-, -, h⟩ := Option.bind_eq_some_iff.mp h
    obtain ⟨n, hn, -⟩ := Option.bind_eq_some_iff.mp h
    have hdigits := isDigit_of_digits? hn
    rcases List.mem_append.mp hc with hc | hc
    · exact Or.inr (hdigits c (List.mem_append_left _ hc))
    · rcases List.mem_cons.mp hc with rfl | hc
      · exact Or.inl (by simpa using hpoint)
      · exact Or.inr (hdigits c (List.mem_append_right _ hc))

section

variable {whole places : List Char} (hwhole : ∀ c ∈ whole, c.isDigit = true)
include hwhole

theorem ne_point : ∀ c ∈ whole, decide (c ≠ '.') = true := by
  intro c hc
  refine decide_eq_true fun hpoint => ?_
  have hdigit := hwhole c hc
  rw [hpoint] at hdigit
  cases hdigit

theorem decimal?_whole (hne : whole ≠ []) :
    decimal? whole = some ⟨Nat.ofDigitChars 10 whole 0, 1⟩ := by
  have htake : whole.takeWhile (fun c => decide (c ≠ '.')) = whole :=
    List.takeWhile_eq_self_iff.mpr (ne_point hwhole)
  have hdrop : whole.dropWhile (fun c => decide (c ≠ '.')) = [] :=
    List.dropWhile_eq_nil_iff.mpr (ne_point hwhole)
  simp only [decimal?, htake, hdrop, digits?_eq_ofDigitChars hne hwhole]
  rfl

theorem decimal?_point (hne : whole ≠ []) (hplaces : ∀ c ∈ places, c.isDigit = true)
    (hne' : places ≠ []) :
    decimal? (whole ++ '.' :: places)
      = some ⟨Nat.ofDigitChars 10 (whole ++ places) 0, 10 ^ places.length⟩ := by
  have hdigits : ∀ c ∈ whole ++ places, c.isDigit = true := by
    intro c hc
    exact (List.mem_append.mp hc).elim (hwhole c) (hplaces c)
  have hread := digits?_eq_ofDigitChars (List.append_ne_nil_of_left_ne_nil hne places) hdigits
  have htake : (whole ++ '.' :: places).takeWhile (fun c => decide (c ≠ '.')) = whole := by
    rw [List.takeWhile_append_of_pos (ne_point hwhole)]
    simp
  have hdrop : (whole ++ '.' :: places).dropWhile (fun c => decide (c ≠ '.')) = '.' :: places := by
    rw [List.dropWhile_append_of_pos (ne_point hwhole)]
    simp
  simp only [decimal?, htake, hdrop, hread]
  simp [hne, hne']

end

/-! ## Writing and reading -/

/-- **A decimal written without an exponent is read with its value.** -/
theorem decimal?_positional (d : Decimal) :
    ∃ f : Fraction, decimal? d.positional = some f ∧ 0 < f.den ∧ f.value = d.value := by
  have hdigits : ∀ c ∈ digitChars d.digits, c.isDigit = true := isDigit_of_mem_toDigits
  have hread : Nat.ofDigitChars 10 (digitChars d.digits) 0 = d.digits := Nat.ofDigitChars_ten_toDigits
  have hne : digitChars d.digits ≠ [] := Nat.toDigits_ne_nil
  have hzeros : ∀ count, ∀ c ∈ List.replicate count '0', c.isDigit = true := by
    intro count c hc
    rw [List.eq_of_mem_replicate hc]
    rfl
  unfold Decimal.positional
  split
  · -- Zeros are filled in up to the point.
    rename_i hexponent
    obtain ⟨zeros, hzeros'⟩ := Int.eq_ofNat_of_zero_le hexponent
    have hall : ∀ c ∈ digitChars d.digits ++ List.replicate zeros '0', c.isDigit = true := by
      intro c hc
      exact (List.mem_append.mp hc).elim (hdigits c) (hzeros _ c)
    refine ⟨_, decimal?_whole (by simpa [hzeros'] using hall) (by simp [hne]), Nat.one_pos, ?_⟩
    simp [Fraction.value, Decimal.value, Nat.ofDigitChars_append, Nat.ofDigitChars_replicate_zero,
      hread, hzeros', mul_comm]
  · rename_i hexponent
    obtain ⟨places, hplaces⟩ : ∃ places : ℕ, d.exponent = -places := ⟨(-d.exponent).toNat, by omega⟩
    have hvalue : d.value = d.digits / (10 ^ places : ℕ) := by
      rw [Decimal.value, hplaces, zpow_neg, zpow_natCast, div_eq_mul_inv]
      push_cast
      rfl
    simp only [hplaces, neg_neg, Int.toNat_natCast]
    have hpoint : ∀ {whole behind : List Char}, (∀ c ∈ whole, c.isDigit = true) → whole ≠ [] →
        (∀ c ∈ behind, c.isDigit = true) → behind.length = places →
        Nat.ofDigitChars 10 (whole ++ behind) 0 = d.digits →
        ∃ f : Fraction, decimal? (whole ++ '.' :: behind) = some f ∧ 0 < f.den ∧
          f.value = d.value := by
      intro whole behind hwhole hne hbehind hlength hnum
      have hne' : behind ≠ [] := List.ne_nil_of_length_pos (by omega)
      refine ⟨_, decimal?_point hwhole hne hbehind hne', Nat.pow_pos (by decide), ?_⟩
      rw [hvalue, Fraction.value, hnum, hlength]
    split
    · -- The point is in front of the digits.
      rename_i hfront
      refine @hpoint ['0'] _ (by simp) (by simp) ?_ ?_ ?_
      · intro c hc
        exact (List.mem_append.mp hc).elim (hzeros _ c) (hdigits c)
      · rw [List.length_append, List.length_replicate]
        omega
      · simp [Nat.ofDigitChars_append, Nat.ofDigitChars_cons, Nat.ofDigitChars_replicate_zero, hread]
    · -- The point is among the digits.
      rename_i hamong
      refine hpoint ?_ ?_ ?_ ?_ ?_
      · exact fun c hc => hdigits c (List.mem_of_mem_take hc)
      · exact fun hnil => (List.take_eq_nil_iff.mp hnil).elim hamong hne
      · exact fun c hc => hdigits c (List.mem_of_mem_drop hc)
      · rw [List.length_drop]
        omega
      · rw [List.take_append_drop, hread]

/-- **The text of a positive double reads back**: the fraction that stands there is nearest to the
double, and rounded to it. -/
theorem decimal?_positional_double {x : Binary64} (hx : x.isPositiveFinite = true) :
    ∃ f : Fraction, decimal? x.positional = some f ∧ f.toBinary64 = x ∧ x.IsNearest f.value := by
  obtain ⟨f, hread, hden, hvalue⟩ := decimal?_positional (x.shortest .up)
  obtain ⟨hround, hnearest⟩ := Binary64.ofRatio_eq_of_shortest hx hden hvalue
  refine ⟨f, ?_, hround, hnearest⟩
  obtain ⟨hsign, -, hexponent⟩ := Binary64.fields_of_isPositiveFinite hx
  have hspecial : x.exponentField ≠ Binary64.specialExponentField := by
    rw [Binary64.specialExponentField]
    omega
  have hunits : x.units ≠ 0 := by
    have := Binary64.centre_mem hx
    omega
  simpa [Binary64.positional, Binary64.isNaN, hspecial, hsign, hunits] using hread

end ExponentialHistogram
