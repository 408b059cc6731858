/-
ExponentialHistogram.Proofs.Text.Digits — numbers read back from their digits.

What the library prints in base ten and in base sixteen is read again by the
readers that the program has for its own arguments. Zeros in front change
nothing.
-/
import Mathlib
import ExponentialHistogram.Settings.Numeral
import ExponentialHistogram.Text.Hexadecimal

namespace ExponentialHistogram

/-! ## Base ten -/

namespace Settings

variable {cs : List Char}

theorem digits?_eq_ofDigitChars (hne : cs ≠ []) (hdigits : ∀ c ∈ cs, c.isDigit = true) :
    digits? cs = some (Nat.ofDigitChars 10 cs 0) := by
  cases cs with
  | nil => exact absurd rfl hne
  | cons c cs =>
    rw [Nat.ofDigitChars_eq_foldl]
    exact if_pos (List.all_eq_true.mpr hdigits)

theorem isDigit_of_digits? {n : ℕ} (h : digits? cs = some n) : ∀ c ∈ cs, c.isDigit = true := by
  cases cs with
  | nil => cases h
  | cons c cs =>
    by_contra hnot
    rw [← List.all_eq_true] at hnot
    rw [digits?, if_neg hnot] at h
    · cases h
    · rintro ⟨⟩

theorem isDigit_of_mem_toDigits {n : ℕ} : ∀ c ∈ Nat.toDigits 10 n, c.isDigit = true :=
  fun _ => Nat.isDigit_of_mem_toDigits (by decide) (by decide)

@[simp]
theorem digits?_toDigits (n : ℕ) : digits? (Nat.toDigits 10 n) = some n := by
  rw [digits?_eq_ofDigitChars Nat.toDigits_ne_nil isDigit_of_mem_toDigits,
    Nat.ofDigitChars_ten_toDigits]

/-- An integer is its digits, with a minus sign in front if it is negative. -/
theorem toList_toString_int (n : ℤ) :
    (toString n).toList =
      if 0 ≤ n then Nat.toDigits 10 n.toNat else '-' :: Nat.toDigits 10 (-n).toNat := by
  rw [Int.toString_eq_repr, Int.repr_eq_if]
  split <;> simp [Nat.toList_repr]

theorem mem_toString_int {n : ℤ} : ∀ c ∈ (toString n).toList, c = '-' ∨ c.isDigit = true := by
  intro c hc
  rw [toList_toString_int] at hc
  split at hc
  · exact Or.inr (isDigit_of_mem_toDigits c hc)
  · exact (List.mem_cons.mp hc).imp_right (isDigit_of_mem_toDigits c)

theorem toList_toString_nat (n : ℕ) : (toString n).toList = Nat.toDigits 10 n := by
  rw [Nat.toString_eq_repr, Nat.toList_repr]

theorem integer?_toString {n : ℤ} (hlow : -2 ^ 63 ≤ n) (hhigh : n < 2 ^ 63) :
    integer? (toString n).toList = some n := by
  rw [toList_toString_int]
  split
  · rename_i hnonneg
    obtain ⟨m, rfl⟩ := Int.eq_ofNat_of_zero_le hnonneg
    -- A digit is no sign.
    have hunsigned : ∀ sign, sign.isDigit = false → ∀ rest, Nat.toDigits 10 m = sign :: rest → False := by
      intro sign hsign rest hcons
      have hdigit := isDigit_of_mem_toDigits (n := m) sign (by rw [hcons]; exact .head _)
      rw [hsign] at hdigit
      cases hdigit
    rw [Int.toNat_natCast,
      integer?.eq_3 _ (hunsigned '-' (by decide)) (hunsigned '+' (by decide))]
    refine Option.bind_eq_some_iff.mpr ⟨m, digits?_toDigits m, ?_⟩
    rw [pure_bind]
    exact if_pos ⟨hlow, hhigh⟩
  · obtain ⟨m, rfl⟩ : ∃ m : ℕ, n = -m := ⟨(-n).toNat, by omega⟩
    rw [neg_neg, Int.toNat_natCast, integer?]
    refine Option.bind_eq_some_iff.mpr ⟨m, digits?_toDigits m, ?_⟩
    rw [pure_bind]
    exact if_pos ⟨hlow, hhigh⟩

end Settings

/-! ## Base sixteen -/

namespace Text

variable {cs : List Char}

theorem hexDigit?_digitChar : ∀ d < 16, hexDigit? (Nat.digitChar d) = some d := by decide

theorem hexNumber?_concat (cs : List Char) (c : Char) :
    hexNumber? (cs ++ [c]) = do
      let n ← hexNumber? cs
      let d ← hexDigit? c
      return 16 * n + d := by
  rw [hexNumber?, List.foldlM_append]
  refine bind_congr fun n => ?_
  cases hd : hexDigit? c <;> simp [hd]

theorem isSome_of_hexNumber? {n : ℕ} (h : hexNumber? cs = some n) :
    ∀ c ∈ cs, (hexDigit? c).isSome = true := by
  induction cs using List.reverseRecOn generalizing n with
  | nil => intro c hc; cases hc
  | append_singleton cs d ih =>
    rw [hexNumber?_concat] at h
    obtain ⟨m, hm, h⟩ := Option.bind_eq_some_iff.mp h
    obtain ⟨e, he, -⟩ := Option.bind_eq_some_iff.mp h
    intro c hc
    rcases List.mem_append.mp hc with hc | hc
    · exact ih hm c hc
    · rw [List.mem_singleton.mp hc, he]
      rfl

@[simp]
theorem hexNumber?_toDigits (n : ℕ) : hexNumber? (Nat.toDigits 16 n) = some n := by
  induction n using Nat.strong_induction_on with
  | _ n ih =>
    rw [Nat.toDigits_eq_if (by decide)]
    split
    · rename_i hlt
      simp [hexNumber?, hexDigit?_digitChar n hlt]
    · rw [hexNumber?_concat, ih (n / 16) (by omega)]
      simp [hexDigit?_digitChar (n % 16) (by omega), Nat.div_add_mod]

@[simp]
theorem hexNumber?_zeros (count : ℕ) (cs : List Char) :
    hexNumber? (List.replicate count '0' ++ cs) = hexNumber? cs := by
  induction count with
  | zero => rfl
  | succ count ih =>
    rw [← ih]
    rfl

end Text

end ExponentialHistogram
