/-
ExponentialHistogram.Proofs.Generator.Remaining — how accurate the remaining
time is.

The elapsed time and the share of open entries are computed with two and three
roundings, their product with one more. Six roundings are less than one part in
`2 ^ 50` (`within_product`), and the nearest nanosecond is half a nanosecond away
at most (`Duration.ofBinary64?_spec`). With that the estimate is as good as the
exact rational time, and it is too long for a duration only where that time is,
up to the same error (`remaining_accurate`).
-/
import Mathlib
import ExponentialHistogram.Generator.Progress
import ExponentialHistogram.Proofs.Binary64.Accumulation

namespace ExponentialHistogram.Generator

open Binary64 (Within IsModerate roundingFactor unitsPerOne)

namespace Duration

/-- The exact number of seconds. -/
def inSeconds (d : Duration) : ℚ := d.seconds + d.nanoseconds / 10 ^ 9

/-- The seconds have 64 bits, and the nanoseconds do not make up another second. -/
structure IsValid (d : Duration) : Prop where
  seconds_lt : d.seconds < 2 ^ 64
  nanoseconds_lt : d.nanoseconds < 10 ^ 9

variable {d : Duration}

theorem inSeconds_nonneg (d : Duration) : 0 ≤ d.inSeconds := by
  rw [inSeconds]
  positivity

theorem IsValid.inSeconds_lt (h : d.IsValid) : d.inSeconds < 2 ^ 64 := by
  have hseconds : (d.seconds : ℚ) + 1 ≤ 2 ^ 64 := by exact_mod_cast h.seconds_lt
  have hnanoseconds : (d.nanoseconds : ℚ) / 10 ^ 9 < 1 := by
    rw [div_lt_one (by positivity)]
    exact_mod_cast h.nanoseconds_lt
  rw [inSeconds]
  linarith

/-- Nanoseconds in tens of figures: whole seconds and the rest. -/
theorem inSeconds_divMod (count : ℕ) : inSeconds ⟨count / 10 ^ 9, count % 10 ^ 9⟩ = count / 10 ^ 9 := by
  rw [inSeconds, eq_div_iff (by norm_num), add_mul, div_mul_cancel₀ _ (by norm_num)]
  exact_mod_cast Nat.div_add_mod' count (10 ^ 9)

/-- A time that is not zero is a nanosecond at least. -/
theorem nanosecond_le (hpos : 0 < d.inSeconds) : 1 / 10 ^ 9 ≤ d.inSeconds := by
  have hcount : (d.inSeconds : ℚ) = ((d.seconds * 10 ^ 9 + d.nanoseconds : ℕ) : ℚ) / 10 ^ 9 := by
    rw [inSeconds, Nat.cast_add, Nat.cast_mul, add_div, Nat.cast_pow, Nat.cast_ofNat,
      mul_div_cancel_right₀ _ (by norm_num)]
  rw [hcount] at hpos ⊢
  have hone : 0 < d.seconds * 10 ^ 9 + d.nanoseconds := by
    rw [div_pos_iff_of_pos_right (by positivity)] at hpos
    exact_mod_cast hpos
  rw [div_le_div_iff_of_pos_right (by positivity)]
  exact_mod_cast hone

theorem IsValid.isModerate_inSeconds (h : d.IsValid) : IsModerate d.inSeconds := by
  rcases d.inSeconds_nonneg.eq_or_lt' with hzero | hpos
  · exact Or.inl hzero
  · exact Or.inr ⟨le_trans (by norm_num) (nanosecond_le hpos), h.inSeconds_lt.le.trans (by norm_num)⟩

theorem IsValid.isModerate_nanoseconds (h : d.IsValid) :
    IsModerate ((d.nanoseconds : ℚ) / 10 ^ 9) := by
  have hlt : (d.nanoseconds : ℚ) ≤ 10 ^ 9 := by exact_mod_cast h.nanoseconds_lt.le
  rcases Nat.eq_zero_or_pos d.nanoseconds with hzero | hpos
  · left
    rw [hzero, Nat.cast_zero, zero_div]
  · have hone : (1 : ℚ) ≤ d.nanoseconds := by exact_mod_cast hpos
    right
    constructor <;> linarith

/-- The nanoseconds as a part of a second are rounded once, the seconds as well, and then their
sum. -/
theorem IsValid.within_toBinary64 (h : d.IsValid) : Within 2 |d.toBinary64.value| d.inSeconds := by
  have hbillion := Within.exactNat (10 ^ 9) (by norm_num)
  rw [Nat.cast_pow, Nat.cast_ofNat] at hbillion
  have hseconds := Within.roundedNat d.seconds (h.seconds_lt.trans (by norm_num))
  have hnanoseconds := Within.exactNat d.nanoseconds (h.nanoseconds_lt.trans (by norm_num))
  have hpart := hnanoseconds.roundedDiv hbillion (by norm_num) (by norm_num)
    h.isModerate_nanoseconds
  exact hseconds.roundedAdd hpart (by norm_num) h.isModerate_inSeconds

/-! ## Rounding to nanoseconds -/

theorem two_pow_le_iff (x : Binary64) :
    2 ^ 64 * unitsPerOne ≤ x.units ↔ (2 : ℚ) ^ 64 ≤ |x.value| := by
  rw [Binary64.abs_value, le_div_iff₀ Binary64.unitsPerOne_cast_pos, ← @Nat.cast_le ℚ,
    Nat.cast_mul, Nat.cast_pow, Nat.cast_ofNat]

/-- The greatest double below `2 ^ 64` is one part in `2 ^ 53` less. -/
theorem units_mul_le {x : Binary64} (h : x.units < 2 ^ 64 * unitsPerOne) :
    x.units * 2 ^ 53 ≤ (2 ^ 53 - 1) * (2 ^ 64 * unitsPerOne) := by
  obtain ⟨places, hone⟩ : ∃ places, unitsPerOne = 2 ^ places := ⟨1074, rfl⟩
  obtain ⟨shift, multiple, hunits, hlow, hhigh⟩ := x.exists_units_eq
  rw [hone, ← Nat.pow_add] at h ⊢
  have hshift : shift ≤ places + 11 := by
    by_contra hlt
    have hlarge : 2 ^ (64 + places) ≤ multiple * 2 ^ shift := by
      calc 2 ^ (64 + places) ≤ 2 ^ (52 + shift) := Nat.pow_le_pow_right (by decide) (by omega)
        _ = 2 ^ 52 * 2 ^ shift := Nat.pow_add ..
        _ ≤ multiple * 2 ^ shift := Nat.mul_le_mul_right _ (hlow (by omega))
    omega
  calc x.units * 2 ^ 53 = multiple * 2 ^ shift * 2 ^ 53 := by rw [hunits]
    _ ≤ (2 ^ 53 - 1) * 2 ^ (places + 11) * 2 ^ 53 := by
        gcongr
        · omega
        · exact one_le_two
    _ = (2 ^ 53 - 1) * 2 ^ (64 + places) := by
        rw [mul_assoc, ← Nat.pow_add, show places + 11 + 53 = 64 + places by omega]

/-- **The nearest time**: it exists below `2 ^ 64` seconds and is half a nanosecond away at most. -/
theorem ofBinary64?_spec (x : Binary64) :
    (ofBinary64? x = none ↔ (2 : ℚ) ^ 64 ≤ |x.value|) ∧
      ∀ d, ofBinary64? x = some d → d.IsValid ∧ |d.inSeconds - abs x.value| ≤ 1 / 2 / 10 ^ 9 := by
  have hone := Binary64.unitsPerOne_pos
  unfold ofBinary64?
  split
  · rename_i hlarge
    exact ⟨iff_of_true rfl ((two_pow_le_iff x).mp hlarge), fun d hd => absurd hd (by simp)⟩
  · rename_i hsmall
    refine ⟨iff_of_false (by simp) (mt (two_pow_le_iff x).mpr hsmall), ?_⟩
    intro d hd
    obtain ⟨hlow, hhigh⟩ := roundHalfEven_bounds (x.units * 10 ^ 9) hone
    have hbelow := units_mul_le (Nat.not_le.mp hsmall)
    generalize roundHalfEven (x.units * 10 ^ 9) unitsPerOne = count at hd hlow hhigh
    obtain rfl := Option.some.inj hd
    refine ⟨⟨?_, Nat.mod_lt _ (by norm_num)⟩, ?_⟩
    · refine Nat.div_lt_of_lt_mul (Nat.lt_of_mul_lt_mul_right (a := unitsPerOne) ?_)
      generalize unitsPerOne = one at *
      omega
    · have hpos := Binary64.unitsPerOne_cast_pos
      rw [← @Nat.cast_le ℚ] at hlow hhigh
      push_cast at hlow hhigh
      rw [inSeconds_divMod, Binary64.abs_value]
      generalize (unitsPerOne : ℚ) = one at *
      have hscale : 0 < one * 10 ^ 9 := by positivity
      have hdistance : (count : ℚ) / 10 ^ 9 - x.units / one
          = (count * one - x.units * 10 ^ 9) / (one * 10 ^ 9) := by
        field_simp
      rw [hdistance, abs_div, abs_of_pos hscale, div_le_iff₀ hscale, abs_le]
      constructor <;> linarith

theorem ofBinary64?_of_within_zero {n : ℕ} {x : Binary64} (h : Within n |x.value| 0) :
    ofBinary64? x = some ⟨0, 0⟩ := by
  have hone := Binary64.unitsPerOne_pos
  have hunits : x.units = 0 := by
    have hnot := mt h.pos_iff.mp (lt_irrefl 0)
    rw [Binary64.abs_value, div_pos_iff_of_pos_right Binary64.unitsPerOne_cast_pos] at hnot
    exact_mod_cast Nat.eq_zero_of_not_pos (mt Nat.cast_pos.mpr hnot)
  rw [ofBinary64?, hunits, if_neg (by omega)]
  generalize unitsPerOne = one at *
  simp [roundHalfEven, hone]

end Duration

/-- The exact time in seconds that the open entries take if they take as long as the completed
ones. -/
def exactRemaining (completed total : ℕ) (elapsed : Duration) : ℚ :=
  elapsed.inSeconds * (total - completed : ℕ) / completed

/-! ## The estimate -/

section

variable {completed total : ℕ} {elapsed : Duration}

/-- The product that is rounded to nanoseconds. -/
def product (completed total : ℕ) (elapsed : Duration) : Binary64 :=
  ((Binary64.ofNat (total - completed)).div (.ofNat completed)).mul elapsed.toBinary64

theorem remaining_eq_unknown_iff : remaining completed total elapsed = .unknown ↔ completed = 0 := by
  unfold remaining
  split
  · rename_i hzero
    exact iff_of_true rfl hzero
  · rename_i hne
    simp only
    split
    · exact iff_of_false (fun h => nomatch h) hne
    · exact iff_of_false (fun h => nomatch h) hne

theorem remaining_eq (hpos : 0 < completed) : remaining completed total elapsed =
    (Duration.ofBinary64? (product completed total elapsed)).elim .tooLong .time := by
  unfold remaining product
  rw [if_neg hpos.ne']
  simp only
  cases Duration.ofBinary64? _ with
  | none => rfl
  | some d => rfl

/-- Open entries for each completed one: none, or a quotient of two numbers of 64 bits. -/
theorem share_bounds (hpos : 0 < completed) (hcompleted : completed < 2 ^ 64)
    (htotal : total < 2 ^ 64) : ((total - completed : ℕ) : ℚ) / completed = 0 ∨
      1 / 2 ^ 64 ≤ ((total - completed : ℕ) : ℚ) / completed ∧
        ((total - completed : ℕ) : ℚ) / completed ≤ 2 ^ 64 := by
  have hone : (1 : ℚ) ≤ completed := by exact_mod_cast hpos
  have hlt : (completed : ℚ) < 2 ^ 64 := by exact_mod_cast hcompleted
  have hopen : ((total - completed : ℕ) : ℚ) < 2 ^ 64 := by
    exact_mod_cast (Nat.sub_le ..).trans_lt htotal
  rcases Nat.eq_zero_or_pos (total - completed) with hzero | hsome
  · left
    rw [hzero, Nat.cast_zero, zero_div]
  · have hleast : (1 : ℚ) ≤ (total - completed : ℕ) := by exact_mod_cast hsome
    right
    rw [le_div_iff₀ (by linarith), div_le_iff₀ (by linarith)]
    constructor <;> linarith

theorem isModerate_share (hpos : 0 < completed) (hcompleted : completed < 2 ^ 64)
    (htotal : total < 2 ^ 64) : IsModerate (((total - completed : ℕ) : ℚ) / completed) := by
  refine (share_bounds hpos hcompleted htotal).imp_right fun ⟨hlow, hhigh⟩ => ⟨?_, ?_⟩
  · linarith
  · linarith

theorem isModerate_exactRemaining (hpos : 0 < completed) (hcompleted : completed < 2 ^ 64)
    (htotal : total < 2 ^ 64) (helapsed : elapsed.IsValid) :
    IsModerate (exactRemaining completed total elapsed) := by
  rw [exactRemaining, mul_div_assoc]
  rcases share_bounds hpos hcompleted htotal with hzero | ⟨hlow, hhigh⟩
  · left
    rw [hzero, mul_zero]
  · rcases elapsed.inSeconds_nonneg.eq_or_lt' with hzero | hsome
    · left
      rw [hzero, zero_mul]
    · have hleast := Duration.nanosecond_le hsome
      have hmost := helapsed.inSeconds_lt.le
      right
      constructor
      · calc (1 / 2 ^ 200 : ℚ) ≤ 1 / 10 ^ 9 * (1 / 2 ^ 64) := by norm_num
          _ ≤ elapsed.inSeconds * (((total - completed : ℕ) : ℚ) / completed) := by gcongr
      · calc elapsed.inSeconds * (((total - completed : ℕ) : ℚ) / completed) ≤ 2 ^ 64 * 2 ^ 64 := by
              gcongr
          _ ≤ 2 ^ 200 := by norm_num

/-- **Six roundings** separate the product from the exact time. -/
theorem within_product (hpos : 0 < completed) (hcompleted : completed < 2 ^ 64)
    (htotal : total < 2 ^ 64) (helapsed : elapsed.IsValid) :
    Within 6 |(product completed total elapsed).value|
      (exactRemaining completed total elapsed) := by
  have hopen := Within.roundedNat (total - completed)
    (((Nat.sub_le ..).trans_lt htotal).trans (by norm_num))
  have hdone := Within.roundedNat completed (hcompleted.trans (by norm_num))
  have hshare := hopen.roundedDiv hdone (by norm_num) (by exact_mod_cast hpos)
    (isModerate_share hpos hcompleted htotal)
  have hmoderate := isModerate_exactRemaining hpos hcompleted htotal helapsed
  rw [exactRemaining, mul_div_assoc, mul_comm] at hmoderate ⊢
  exact hshare.roundedMul helapsed.within_toBinary64 (by norm_num) hmoderate

/-- Six roundings are less than one part in `2 ^ 50`. -/
theorem six_roundings :
    roundingFactor ^ 6 ≤ 1 + 1 / 2 ^ 50 ∧ (1 - 1 / 2 ^ 50) * roundingFactor ^ 6 ≤ 1 := by
  norm_num [roundingFactor]

theorem abs_sub_le_of_within {x y : ℚ} (h : Within 6 x y) : |x - y| ≤ y / 2 ^ 50 := by
  obtain ⟨hupper, hlower⟩ := six_roundings
  have habove : x ≤ y * (1 + 1 / 2 ^ 50) :=
    h.left_le.trans (mul_le_mul_of_nonneg_left hupper h.right_nonneg)
  have hbelow : y * (1 - 1 / 2 ^ 50) ≤ x := by
    calc y * (1 - 1 / 2 ^ 50) ≤ x * roundingFactor ^ 6 * (1 - 1 / 2 ^ 50) :=
          mul_le_mul_of_nonneg_right h.right_le (by norm_num)
      _ = x * ((1 - 1 / 2 ^ 50) * roundingFactor ^ 6) := by ring
      _ ≤ x := mul_le_of_le_one_right h.left_nonneg hlower
  rw [abs_le]
  constructor <;> linarith

/-- **The estimate is accurate**, and too long only if the exact time is. Nothing is known as long as
no entry is completed, and nothing is left to wait for once all of them are. -/
theorem remaining_accurate (hcompleted : completed < 2 ^ 64) (htotal : total < 2 ^ 64)
    (helapsed : elapsed.IsValid) :
    (remaining completed total elapsed = .unknown ↔ completed = 0) ∧
    (0 < completed → total ≤ completed → remaining completed total elapsed = .time ⟨0, 0⟩) ∧
    (0 < completed → completed < total →
      (exactRemaining completed total elapsed * (1 + 1 / 2 ^ 50) < 2 ^ 64 →
        ∃ d, remaining completed total elapsed = .time d ∧ d.IsValid ∧
          |d.inSeconds - exactRemaining completed total elapsed|
            ≤ 1 / 2 / 10 ^ 9 + exactRemaining completed total elapsed / 2 ^ 50) ∧
      (2 ^ 64 ≤ exactRemaining completed total elapsed * (1 - 1 / 2 ^ 50) →
        remaining completed total elapsed = .tooLong)) := by
  refine ⟨remaining_eq_unknown_iff, ?_, ?_⟩
  · intro hpos hdone
    have hproduct := within_product hpos hcompleted htotal helapsed
    have hnothing : exactRemaining completed total elapsed = 0 := by
      rw [exactRemaining, Nat.sub_eq_zero_of_le hdone, Nat.cast_zero, mul_zero, zero_div]
    rw [hnothing] at hproduct
    rw [remaining_eq hpos, Duration.ofBinary64?_of_within_zero hproduct]
    rfl
  · intro hpos _
    have herror := abs_sub_le_of_within (within_product hpos hcompleted htotal helapsed)
    obtain ⟨hnone, hsome⟩ := Duration.ofBinary64?_spec (product completed total elapsed)
    rw [remaining_eq hpos]
    generalize exactRemaining completed total elapsed = time at *
    obtain ⟨hbelow, habove⟩ := abs_le.mp herror
    constructor
    · intro hfits
      cases hd : Duration.ofBinary64? (product completed total elapsed) with
      | none =>
        have hlarge := hnone.mp hd
        linarith
      | some d =>
        obtain ⟨hvalid, hnear⟩ := hsome d hd
        obtain ⟨hlow, hhigh⟩ := abs_le.mp hnear
        refine ⟨d, rfl, hvalid, abs_le.mpr ⟨?_, ?_⟩⟩
        · linarith
        · linarith
    · intro hlarge
      rw [hnone.mpr (by linarith)]
      rfl

/-- A third of ten entries after seven seconds and a nanosecond, and a time that is too long. -/
theorem remaining_accurate_third :
    (3 < 2 ^ 64 ∧ 10 < 2 ^ 64 ∧ Duration.IsValid ⟨7, 1⟩ ∧
      exactRemaining 3 10 ⟨7, 1⟩ * (1 + 1 / 2 ^ 50) < 2 ^ 64 ∧
      ∃ d, remaining 3 10 ⟨7, 1⟩ = .time d ∧
        |d.inSeconds - exactRemaining 3 10 ⟨7, 1⟩| ≤ 1 / 10 ^ 9) ∧
    2 ^ 64 ≤ exactRemaining 1 (2 ^ 63) ⟨10, 0⟩ * (1 - 1 / 2 ^ 50) ∧
    remaining 1 (2 ^ 63) ⟨10, 0⟩ = .tooLong := by
  have hvalid : Duration.IsValid ⟨7, 1⟩ := ⟨by norm_num, by norm_num⟩
  have hvalid' : Duration.IsValid ⟨10, 0⟩ := ⟨by norm_num, by norm_num⟩
  have hshort : exactRemaining 3 10 ⟨7, 1⟩ * (1 + 1 / 2 ^ 50) < 2 ^ 64 := by
    norm_num [exactRemaining, Duration.inSeconds]
  have hlong : 2 ^ 64 ≤ exactRemaining 1 (2 ^ 63) ⟨10, 0⟩ * (1 - 1 / 2 ^ 50) := by
    norm_num [exactRemaining, Duration.inSeconds]
  obtain ⟨-, -, hthird⟩ := @remaining_accurate 3 10 ⟨7, 1⟩ (by norm_num) (by norm_num) hvalid
  obtain ⟨-, -, hfew⟩ := @remaining_accurate 1 (2 ^ 63) ⟨10, 0⟩ (by norm_num) (by norm_num) hvalid'
  obtain ⟨d, htime, -, hnear⟩ := (hthird (by norm_num) (by norm_num)).1 hshort
  refine ⟨⟨by norm_num, by norm_num, hvalid, hshort, d, htime, hnear.trans ?_⟩, hlong,
    (hfew (by norm_num) (by norm_num)).2 hlong⟩
  norm_num [exactRemaining, Duration.inSeconds]

end

end ExponentialHistogram.Generator
