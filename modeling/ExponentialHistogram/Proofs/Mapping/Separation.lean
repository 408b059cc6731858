/-
ExponentialHistogram.Proofs.Mapping.Separation — no bucket boundary comes close
to an integer.

Counted in units of the last place, the boundaries inside a binade keep a
distance of `2 ^ -35` from every integer, up to scale 20
(`boundary_separated`). Nothing but their digits tells, so the digits are
computed, of all `2 ^ 20` boundaries of the finest scale.

A boundary is a coarse factor, one of 4096, times a fine factor, one of 256.
Both kinds are powers of one ratio and are run through by multiplication with
120 binary places, rounding down; `RoundsDown` keeps account of the error. The
fine factors stand side by side in one number (`pack`), so that a single
product holds 256 boundaries, and a few operations on it see whether one of
them has a fraction that begins with 32 zeros (`separated_sound`). All are
moved up by a little before that, which makes the fractions just below an
integer begin with zeros as well.
-/
import Mathlib
import ExponentialHistogram.Proofs.Mapping.Resolution

namespace ExponentialHistogram

/-! ## Starts as powers -/

theorem bucketStart_natCast (scale : ℤ) (n : ℕ) : bucketStart scale n = bucketStart scale 1 ^ n := by
  rw [bucketStart, bucketStart, ← Real.rpow_natCast, ← Real.rpow_mul (by norm_num)]
  congr 1
  push_cast
  ring

theorem bucketStart_add (scale i j : ℤ) :
    bucketStart scale (i + j) = bucketStart scale i * bucketStart scale j := by
  rw [bucketStart, bucketStart, bucketStart, ← Real.rpow_add (by norm_num), Int.cast_add, add_div]

theorem one_le_bucketStart {scale index : ℤ} (h : 0 ≤ index) : 1 ≤ bucketStart scale index := by
  have hcast : (0 : ℝ) ≤ index := by exact_mod_cast h
  rw [bucketStart]
  exact Real.one_le_rpow (by norm_num) (by positivity)

/-- The starts of one binade. -/
theorem bucketStart_le_two {scale n : ℕ} (h : n ≤ 2 ^ scale) : bucketStart scale n ≤ 2 := by
  have hcast : (n : ℝ) ≤ 2 ^ scale := by exact_mod_cast h
  rw [bucketStart]
  refine (Real.rpow_le_rpow_of_exponent_le (by norm_num) ?_).trans_eq (Real.rpow_one 2)
  rw [Int.cast_natCast, zpow_natCast]
  exact div_le_one_of_le₀ hcast (by positivity)

namespace Separation

/-! ## Numbers side by side -/

/-- The numbers in fields of 256 bits, the first one lowest. -/
def pack : List ℕ → ℕ
  | [] => 0
  | x :: xs => 2 ^ 256 * pack xs + x

theorem testBit_pack {xs : List ℕ} (hfits : ∀ x ∈ xs, x < 2 ^ 256) {i j : ℕ} (hi : i < xs.length)
    (hj : j < 256) : (pack xs).testBit (256 * i + j) = xs[i].testBit j := by
  induction xs generalizing i with
  | nil => exact absurd hi (Nat.not_lt_zero _)
  | cons x xs ih =>
    rw [pack, Nat.testBit_two_pow_mul_add _ (hfits x List.mem_cons_self)]
    cases i with
    | zero => rw [Nat.mul_zero, Nat.zero_add, if_pos hj, List.getElem_cons_zero]
    | succ i =>
      have hplace : 256 * (i + 1) + j - 256 = 256 * i + j := by omega
      rw [if_neg (by omega), hplace, List.getElem_cons_succ]
      exact ih (fun y hy => hfits y (List.mem_cons_of_mem _ hy)) (Nat.lt_of_succ_lt_succ hi)

/-- One product and one sum act on all fields. -/
theorem mul_pack_add (factor offset : ℕ) (xs : List ℕ) :
    factor * pack xs + pack (xs.map fun _ => offset)
      = pack (xs.map fun x => factor * x + offset) := by
  induction xs with
  | nil => rfl
  | cons x xs ih =>
    simp only [List.map_cons, pack]
    rw [← ih]
    ring

/-- A bit of the result is set if it or one of the `2 ^ levels - 1` bits above it was set. -/
def smear : (levels n : ℕ) → ℕ
  | 0, n => n
  | levels + 1, n => smear levels (n ||| n >>> 2 ^ levels)

theorem exists_of_testBit_smear {levels n i : ℕ} (h : (smear levels n).testBit i = true) :
    ∃ j, j < 2 ^ levels ∧ n.testBit (i + j) = true := by
  induction levels generalizing n with
  | zero => exact ⟨0, Nat.one_pos, h⟩
  | succ levels ih =>
    obtain ⟨j, hj, hbit⟩ := ih h
    have hdouble : 2 ^ (levels + 1) = 2 ^ levels + 2 ^ levels := by rw [Nat.pow_succ]; omega
    rw [Nat.testBit_or, Nat.testBit_shiftRight, Bool.or_eq_true] at hbit
    rcases hbit with hhere | habove
    · exact ⟨j, by omega, hhere⟩
    · refine ⟨2 ^ levels + j, by omega, ?_⟩
      rwa [show i + (2 ^ levels + j) = 2 ^ levels + (i + j) by omega]

/-! ## The computation -/

/-- Each number is the one before it times `ratio / 2 ^ 120`, rounded down. -/
def geometric (ratio : ℕ) : (count first : ℕ) → List ℕ
  | 0, _ => []
  | count + 1, first => first :: geometric ratio count (first * ratio / 2 ^ 120)

/-- Whether no product of a coarse and a fine factor comes close to an integer. A product has 188
binary places behind the point. After moving it up by `2 ^ 154` of the last one, some bit from place
156 up to the point has to be set. -/
def separated (fine coarse : List ℕ) : Bool :=
  coarse.all fun factor =>
    smear 5 (factor * pack fine + pack (fine.map fun _ => 2 ^ 154))
        &&& pack (fine.map fun _ => 2 ^ 156)
      == pack (fine.map fun _ => 2 ^ 156)

theorem separated_sound {fine coarse : List ℕ} (h : separated fine coarse = true) {a b : ℕ}
    (ha : a ∈ coarse) (hb : b ∈ fine) (hfits : ∀ x ∈ fine, a * x + 2 ^ 154 < 2 ^ 256) :
    2 ^ 156 ≤ (a * b + 2 ^ 154) % 2 ^ 188 := by
  have hprobes := beq_iff_eq.mp (List.all_eq_true.mp h a ha)
  obtain ⟨i, hi, rfl⟩ := List.getElem_of_mem hb
  have hprobe : (pack (fine.map fun _ => 2 ^ 156)).testBit (256 * i + 156) = true := by
    rw [testBit_pack (by simp) (by simpa using hi) (by decide), List.getElem_map]
    decide
  rw [← hprobes, Nat.testBit_and, Bool.and_eq_true, mul_pack_add] at hprobe
  obtain ⟨j, hj, hbit⟩ := exists_of_testBit_smear hprobe.1
  rw [Nat.add_assoc, testBit_pack (by simpa using hfits) (by simpa using hi) (by omega),
    List.getElem_map] at hbit
  have hlow : ((a * fine[i] + 2 ^ 154) % 2 ^ 188).testBit (156 + j) = true := by
    rw [Nat.testBit_mod_two_pow, hbit]
    simp only [Bool.and_true, decide_eq_true_eq]
    omega
  exact (Nat.pow_le_pow_right (by decide) (Nat.le_add_right 156 j)).trans
    (Nat.ge_two_pow_of_testBit hlow)

/-- The ratio of two neighbouring coarse factors, `2 ^ (1 / 2 ^ 12)`. -/
def coarseRatio : ℕ := 1329452953939201987327158826197226391

/-- The ratio of two neighbouring fine factors, `2 ^ (1 / 2 ^ 20)`. -/
def fineRatio : ℕ := 1329228874453645772314191259840712983

def coarseFactors : List ℕ := geometric coarseRatio 4096 (2 ^ 120)

def fineFactors : List ℕ := geometric fineRatio 256 (2 ^ 120)

/-- With a coarse factor of one, the fine factor of one has to be left out: their product is an
integer. -/
theorem separated_first : separated fineFactors.tail [2 ^ 120] = true := by decide +kernel

theorem separated_rest : separated fineFactors coarseFactors.tail = true := by decide +kernel

/-! ## The error of the factors -/

/-- The number one with 120 binary places. -/
@[irreducible]
noncomputable def unit : ℝ := (2 ^ 120 : ℕ)

/-- What rounding down leaves of a number of at least one, in the worst case. -/
noncomputable def remains : ℝ := 1 - 1 / (2 ^ 118 : ℕ)

theorem unit_pos : 0 < unit := by rw [unit]; positivity

theorem unit_le {n : ℕ} (h : 2 ^ 120 ≤ n) : unit ≤ n := by
  rw [unit]
  exact_mod_cast h

theorem remains_nonneg : 0 ≤ remains := by
  rw [remains]; norm_num

theorem mul_remains_le {q : ℝ} (hq : unit ≤ q) : q * remains ≤ q - 1 := by
  have h : 1 ≤ q * (1 / 2 ^ 118) := by
    rw [mul_one_div, le_div_iff₀ (by positivity), one_mul]
    exact le_trans (by rw [unit]; norm_num) hq
  rw [remains]
  linarith

/-- The integer is the number with 120 binary places, rounded down `count` times on the way. -/
structure RoundsDown (n : ℕ) (x : ℝ) (count : ℕ) : Prop where
  two_pow_le : 2 ^ 120 ≤ n
  le : (n : ℝ) ≤ unit * x
  ge : unit * x * remains ^ count ≤ n

namespace RoundsDown

theorem one : RoundsDown (2 ^ 120) 1 0 := by
  refine ⟨le_rfl, ?_, ?_⟩ <;> rw [unit] <;> norm_num

theorem of_floor {n : ℕ} {x : ℝ} (hx : 1 ≤ x) (hn : ⌊unit * x⌋₊ = n) : RoundsDown n x 1 := by
  have hunit := unit_pos
  have hone : unit ≤ unit * x := le_mul_of_one_le_right hunit.le hx
  have hle := Nat.floor_le (hunit.le.trans hone)
  have hlt := Nat.lt_floor_add_one (unit * x)
  rw [hn] at hle hlt
  refine ⟨?_, hle, ?_⟩
  · rw [← hn]
    apply Nat.le_floor
    rw [← unit]
    exact hone
  · rw [pow_one]
    linarith [mul_remains_le hone]

theorem mul {n r j k : ℕ} {x y : ℝ} (hx : RoundsDown n x j) (hy : RoundsDown r y k) :
    RoundsDown (n * r / 2 ^ 120) (x * y) (j + k + 1) := by
  have hunit := unit_pos
  have hrem := remains_nonneg
  have hxpos : 0 ≤ unit * x := n.cast_nonneg.trans hx.le
  have hypos : 0 ≤ unit * y := r.cast_nonneg.trans hy.le
  have hquotient : unit ≤ n * r / unit := by
    rw [le_div_iff₀ hunit]
    exact mul_le_mul (unit_le hx.two_pow_le) (unit_le hy.two_pow_le) hunit.le n.cast_nonneg
  have hfloor : ⌊(n * r / unit : ℝ)⌋₊ = n * r / 2 ^ 120 := by
    rw [← Nat.floor_div_eq_div (K := ℝ) (n * r) (2 ^ 120), Nat.cast_mul, unit]
  refine ⟨(Nat.le_div_iff_mul_le (Nat.two_pow_pos 120)).mpr
    (Nat.mul_le_mul hx.two_pow_le hy.two_pow_le), ?_, ?_⟩ <;> rw [← hfloor]
  · calc (⌊(n * r / unit : ℝ)⌋₊ : ℝ) ≤ n * r / unit := Nat.floor_le (by positivity)
      _ ≤ (unit * x) * (unit * y) / unit :=
          div_le_div_of_nonneg_right (mul_le_mul hx.le hy.le r.cast_nonneg hxpos) hunit.le
      _ = unit * (x * y) := by field_simp
  · calc unit * (x * y) * remains ^ (j + k + 1)
        = (unit * x * remains ^ j) * (unit * y * remains ^ k) / unit * remains := by
          field_simp
          ring
      _ ≤ (n : ℝ) * r / unit * remains :=
          mul_le_mul_of_nonneg_right (div_le_div_of_nonneg_right (mul_le_mul hx.ge hy.ge
            (mul_nonneg hypos (pow_nonneg hrem k)) n.cast_nonneg) hunit.le) hrem
      _ ≤ (n : ℝ) * r / unit - 1 := mul_remains_le hquotient
      _ ≤ (⌊(n * r / unit : ℝ)⌋₊ : ℝ) := by
          linarith [Nat.lt_floor_add_one (n * r / unit : ℝ)]

end RoundsDown

theorem length_geometric (ratio count first : ℕ) : (geometric ratio count first).length = count := by
  induction count generalizing first with
  | zero => rfl
  | succ count ih => rw [geometric, List.length_cons, ih]

theorem RoundsDown.geometric {ratio k : ℕ} {y : ℝ} (hratio : RoundsDown ratio y k)
    {count first j : ℕ} {x : ℝ} (hfirst : RoundsDown first x j) {i : ℕ}
    (hi : i < (geometric ratio count first).length) :
    RoundsDown (Separation.geometric ratio count first)[i] (x * y ^ i) (j + (k + 1) * i) := by
  induction count generalizing first j x i with
  | zero => exact absurd hi (Nat.not_lt_zero _)
  | succ count ih =>
    cases i with
    | zero =>
      simp only [Nat.mul_zero, pow_zero, mul_one]
      exact hfirst
    | succ i =>
      have hnext := ih (hfirst.mul hratio) (i := i) (by
        rw [length_geometric] at hi ⊢
        omega)
      rw [mul_assoc, ← pow_succ'] at hnext
      rwa [show j + k + 1 + (k + 1) * i = j + (k + 1) * (i + 1) by ring] at hnext

/-! ## The boundaries -/

/-- Whole parts of a number and of its root, compared by raising the whole part of the root. -/
theorem floor_root_eq {n c N : ℕ} {x : ℝ} (hx : 0 ≤ x) (hpower : ⌊unit * x ^ (N + 1)⌋₊ = c)
    (hlow : n ^ (N + 1) ≤ c * 2 ^ (120 * N)) (hhigh : (c + 1) * 2 ^ (120 * N) ≤ (n + 1) ^ (N + 1)) :
    ⌊unit * x⌋₊ = n := by
  have hunit := unit_pos
  have hcast : ((2 ^ (120 * N) : ℕ) : ℝ) = unit ^ N := by
    rw [pow_mul, Nat.cast_pow, unit]
  have hsplit : (unit * x) ^ (N + 1) = unit * x ^ (N + 1) * unit ^ N := by ring
  have hle := Nat.floor_le (show 0 ≤ unit * x ^ (N + 1) by positivity)
  have hlt := Nat.lt_floor_add_one (unit * x ^ (N + 1))
  rw [hpower] at hle hlt
  rw [Nat.floor_eq_iff (by positivity)]
  constructor
  · rw [← pow_le_pow_iff_left₀ n.cast_nonneg (by positivity) N.succ_ne_zero, hsplit]
    calc (n : ℝ) ^ (N + 1) ≤ c * ((2 ^ (120 * N) : ℕ) : ℝ) := by exact_mod_cast hlow
      _ ≤ unit * x ^ (N + 1) * unit ^ N := by
          rw [hcast]
          exact mul_le_mul_of_nonneg_right hle (by positivity)
  · rw [← pow_lt_pow_iff_left₀ (by positivity) (by positivity) N.succ_ne_zero, hsplit]
    calc unit * x ^ (N + 1) * unit ^ N < (c + 1) * ((2 ^ (120 * N) : ℕ) : ℝ) := by
          rw [hcast]
          exact mul_lt_mul_of_pos_right hlt (by positivity)
      _ ≤ (n + 1) ^ (N + 1) := by exact_mod_cast hhigh

theorem floor_coarseRatio : ⌊unit * bucketStart 12 1⌋₊ = coarseRatio := by
  have hpower : bucketStart 12 1 ^ (4095 + 1) = 2 := by
    rw [show 4095 + 1 = 2 ^ Int.toNat 12 from rfl, bucketStart_pow 12 1,
      show Int.toNat (-12) = 0 from rfl]
    norm_num
  refine floor_root_eq (c := 2 ^ 121) (N := 4095) (bucketStart_pos 12 1).le ?_
    (by decide +kernel) (by decide +kernel)
  rw [hpower, unit]
  norm_num

theorem floor_fineRatio : ⌊unit * bucketStart 20 1⌋₊ = fineRatio := by
  have hpower : bucketStart 20 1 ^ (255 + 1) = bucketStart 12 1 := by
    rw [← bucketStart_natCast]
    exact bucketStart_nested 12 8 1
  refine floor_root_eq (c := coarseRatio) (N := 255) (bucketStart_pos 20 1).le ?_
    (by decide +kernel) (by decide +kernel)
  rw [hpower, floor_coarseRatio]

theorem roundsDown_factor {scale : ℤ} {ratio count : ℕ}
    (hratio : ⌊unit * bucketStart scale 1⌋₊ = ratio) {i : ℕ}
    (hi : i < (geometric ratio count (2 ^ 120)).length) :
    RoundsDown (geometric ratio count (2 ^ 120))[i] (bucketStart scale i) (2 * i) := by
  have h := (RoundsDown.of_floor (one_le_bucketStart (by decide)) hratio).geometric .one hi
  rwa [one_mul, ← bucketStart_natCast, Nat.zero_add] at h

/-- The full product of a coarse and a fine factor, with 240 binary places. -/
theorem RoundsDown.product {n r j k : ℕ} {x y : ℝ} (hx : RoundsDown n x j) (hy : RoundsDown r y k)
    (htwo : x * y ≤ 2) (hcount : j + k ≤ 2 ^ 14) :
    ((n * r : ℕ) : ℝ) ≤ unit ^ 2 * (x * y) ∧ unit ^ 2 * (x * y) ≤ (n * r : ℕ) + 2 ^ 153 := by
  have hunit := unit_pos
  have hrem := remains_nonneg
  have hxpos : 0 ≤ unit * x := n.cast_nonneg.trans hx.le
  have hypos : 0 ≤ unit * y := r.cast_nonneg.trans hy.le
  have hnonneg : 0 ≤ unit ^ 2 * (x * y) := by
    rw [show unit ^ 2 * (x * y) = unit * x * (unit * y) by ring]
    exact mul_nonneg hxpos hypos
  rw [Nat.cast_mul]
  constructor
  · calc (n : ℝ) * r ≤ (unit * x) * (unit * y) := mul_le_mul hx.le hy.le r.cast_nonneg hxpos
      _ = unit ^ 2 * (x * y) := by ring
  · -- Bernoulli's inequality bounds what all the roundings have taken off together.
    have hbernoulli := one_add_mul_le_pow (show (-2 : ℝ) ≤ -(1 / (2 ^ 118 : ℕ)) by norm_num)
      (j + k)
    rw [← sub_eq_add_neg (1 : ℝ), ← remains] at hbernoulli
    have hlost : 1 - remains ^ (j + k) ≤ 1 / 2 ^ 104 := by
      have hcast : ((j + k : ℕ) : ℝ) ≤ 2 ^ 14 := by exact_mod_cast hcount
      have hsmall : ((j + k : ℕ) : ℝ) * (1 / 2 ^ 118) ≤ 2 ^ 14 * (1 / 2 ^ 118) :=
        mul_le_mul_of_nonneg_right hcast (by norm_num)
      norm_num at hbernoulli hsmall ⊢
      linarith
    have hgap : unit ^ 2 * (x * y) * (1 - remains ^ (j + k)) ≤ 2 ^ 153 :=
      calc unit ^ 2 * (x * y) * (1 - remains ^ (j + k))
          ≤ unit ^ 2 * (x * y) * (1 / 2 ^ 104) := mul_le_mul_of_nonneg_left hlost hnonneg
        _ ≤ unit ^ 2 * 2 * (1 / 2 ^ 104) := by
            apply mul_le_mul_of_nonneg_right _ (by norm_num)
            exact mul_le_mul_of_nonneg_left htwo (by positivity)
        _ ≤ 2 ^ 153 := by
            rw [unit]
            norm_num
    calc unit ^ 2 * (x * y)
        = (unit * x * remains ^ j) * (unit * y * remains ^ k)
            + unit ^ 2 * (x * y) * (1 - remains ^ (j + k)) := by ring
      _ ≤ (n : ℝ) * r + 2 ^ 153 := add_le_add (mul_le_mul hx.ge hy.ge
          (mul_nonneg hypos (pow_nonneg hrem k)) n.cast_nonneg) hgap

/-- Bits behind the point that are neither all zeros nor, but for the amount moved up by, all ones. -/
theorem away_of_mod {y : ℕ} {p : ℝ} (h : 2 ^ 156 ≤ (y + 2 ^ 154) % 2 ^ 188) (hle : y ≤ p)
    (hge : p ≤ y + 2 ^ 153) (m : ℕ) : 1 / 2 ^ 35 ≤ |(m : ℝ) - p / 2 ^ 188| := by
  have hdiv := Nat.div_add_mod (y + 2 ^ 154) (2 ^ 188)
  have hmod := Nat.mod_lt (y + 2 ^ 154) (Nat.two_pow_pos 188)
  generalize (y + 2 ^ 154) / 2 ^ 188 = whole at hdiv
  have hlow : ((2 ^ 188 * whole + 2 ^ 155 : ℕ) : ℝ) ≤ y := by
    rw [Nat.cast_le]
    omega
  have hhigh : (y : ℝ) ≤ ((2 ^ 188 * (whole + 1) - 2 ^ 154 : ℤ) : ℝ) := by
    have : (y : ℤ) ≤ 2 ^ 188 * (whole + 1) - 2 ^ 154 := by omega
    exact_mod_cast this
  push_cast at hlow hhigh
  rcases Nat.lt_or_ge whole m with habove | hbelow
  · have hcast : (whole : ℝ) + 1 ≤ m := by exact_mod_cast habove
    rw [le_abs]
    left
    linarith
  · have hcast : (m : ℝ) ≤ whole := by exact_mod_cast hbelow
    rw [le_abs]
    right
    linarith

theorem factor_le (scale : ℕ) {ratio count : ℕ} (hratio : ⌊unit * bucketStart scale 1⌋₊ = ratio)
    (hcount : count ≤ 2 ^ scale) {x : ℕ} (hx : x ∈ geometric ratio count (2 ^ 120)) :
    x ≤ 2 ^ 121 := by
  obtain ⟨i, hi, rfl⟩ := List.getElem_of_mem hx
  have hi' : i ≤ 2 ^ scale := by
    rw [length_geometric] at hi
    omega
  have hle : ((geometric ratio count (2 ^ 120))[i] : ℝ) ≤ unit * 2 :=
    (roundsDown_factor hratio hi).le.trans
      (mul_le_mul_of_nonneg_left (bucketStart_le_two hi') unit_pos.le)
  rw [unit] at hle
  norm_num at hle ⊢
  exact_mod_cast hle

theorem getElem_succ_mem_tail {xs : List ℕ} {i : ℕ} (h : i + 1 < xs.length) :
    xs[i + 1] ∈ xs.tail := by
  rw [← List.getElem_tail (by rw [List.length_tail]; omega)]
  exact List.getElem_mem _

theorem factors_separated {i j : ℕ} (hi : i < coarseFactors.length) (hj : j < fineFactors.length)
    (h : i ≠ 0 ∨ j ≠ 0) :
    2 ^ 156 ≤ (coarseFactors[i] * fineFactors[j] + 2 ^ 154) % 2 ^ 188 := by
  have hfits : ∀ x ∈ fineFactors, coarseFactors[i] * x + 2 ^ 154 < 2 ^ 256 := by
    intro x hx
    have hcoarse := factor_le 12 floor_coarseRatio (by decide) (List.getElem_mem hi)
    have hfine := factor_le 20 floor_fineRatio (by decide) hx
    have := Nat.mul_le_mul hcoarse hfine
    omega
  cases i with
  | succ i =>
    exact separated_sound separated_rest (getElem_succ_mem_tail hi) (List.getElem_mem hj) hfits
  | zero =>
    obtain ⟨j, rfl⟩ := Nat.exists_eq_succ_of_ne_zero (h.resolve_left (absurd rfl))
    exact separated_sound separated_first (List.mem_singleton_self _) (getElem_succ_mem_tail hj)
      fun x hx => hfits x (List.mem_of_mem_tail hx)

/-- The boundaries of the finest scale. -/
theorem boundary_separated_finest {n : ℕ} (hpos : 0 < n) (hlt : n < 2 ^ 20) (m : ℕ) :
    1 / 2 ^ 35 ≤ |(m : ℝ) - 2 ^ 52 * bucketStart 20 n| := by
  have hcoarse : n / 256 < coarseFactors.length := by
    rw [coarseFactors, length_geometric]
    omega
  have hfine : n % 256 < fineFactors.length := by
    rw [fineFactors, length_geometric]
    omega
  have hstart : bucketStart 12 (n / 256 : ℕ) * bucketStart 20 (n % 256 : ℕ) = bucketStart 20 n := by
    have hnested : bucketStart 20 ((n / 256 : ℕ) * 2 ^ 8) = bucketStart 12 (n / 256 : ℕ) :=
      bucketStart_nested 12 8 _
    rw [← hnested, ← bucketStart_add]
    congr 1
    omega
  obtain ⟨hle, hge⟩ := (roundsDown_factor floor_coarseRatio hcoarse).product
    (roundsDown_factor floor_fineRatio hfine) (hstart.trans_le (bucketStart_le_two hlt.le))
    (by omega)
  have haway := away_of_mod (factors_separated hcoarse hfine (by omega)) hle hge m
  rwa [hstart, mul_div_right_comm, show unit ^ 2 / 2 ^ 188 = 2 ^ 52 by rw [unit]; norm_num] at haway

end Separation

open Separation in
/-- **No boundary comes close to an integer**: counted in units of the last place, a boundary inside
a binade keeps a distance of `2 ^ -35` from each of them. -/
theorem boundary_separated {scale position : ℕ} (hscale : scale ≤ 20) (hpos : 0 < position)
    (hlt : position < 2 ^ scale) (m : ℕ) :
    1 / 2 ^ 35 ≤ |(m : ℝ) - 2 ^ 52 * bucketStart scale position| := by
  obtain ⟨finer, hfiner⟩ := Nat.exists_eq_add_of_le hscale
  have hsum : (20 : ℤ) = scale + finer := by exact_mod_cast hfiner
  have hnested : bucketStart 20 (position * 2 ^ finer : ℕ) = bucketStart scale position := by
    rw [hsum, Nat.cast_mul, Nat.cast_pow, Nat.cast_ofNat, bucketStart_nested]
  rw [← hnested]
  apply boundary_separated_finest
  · exact Nat.mul_pos hpos (Nat.two_pow_pos finer)
  · rw [hfiner, Nat.pow_add]
    exact Nat.mul_lt_mul_of_pos_right hlt (Nat.two_pow_pos finer)

end ExponentialHistogram
