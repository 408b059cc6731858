/-
ExponentialHistogram.Proofs.Threshold.SquareWords — two words hold the square
of a word.

With `v = high * 2 ^ 64 + low` the square is
`high ^ 2 * 2 ^ 128 + high * low * 2 ^ 65 + low ^ 2`. The first and the last
term have a word each, the middle one lies across both and is shifted into
either. A product of two halves leaves room for twice itself
(`half_mul_half_le`), so the higher word can take its part and the carry
besides (`nothingLost`). What one word loses is then found in the other, and
their sum is the square (`squareWords_toNat`).
-/
import Mathlib
import ExponentialHistogram.Threshold.WideFloat

namespace ExponentialHistogram.Threshold

/-! ## The words on the way -/

/-- The upper 64 bits of a word. -/
def highHalf (v : BitVec 128) : BitVec 128 := v >>> 64

/-- The lower 64 bits of a word. -/
def lowHalf (v : BitVec 128) : BitVec 128 := v &&& 0xFFFFFFFFFFFFFFFF#128

/-- The product of the halves, which the square contains twice. -/
def crossProduct (v : BitVec 128) : BitVec 128 := highHalf v * lowHalf v

/-- The lower word of the square, without what does not fit. -/
def lowWord (v : BitVec 128) : BitVec 128 := lowHalf v * lowHalf v + crossProduct v <<< 65

/-- What the addition of the lower word carries into the higher one. -/
def carry (v : BitVec 128) : BitVec 128 :=
  if lowWord v < lowHalf v * lowHalf v then 1#128 else 0#128

theorem squareWords_eq (v : BitVec 128) :
    squareWords v
      = (highHalf v * highHalf v + crossProduct v >>> 63 + carry v, lowWord v) := rfl

/-- No product leaves 128 bits, and neither does the higher word. Bits are lost in two places: the ones
that leave the cross product to the left, which its shift to the right keeps, and the carry. -/
structure NothingLost (v : BitVec 128) : Prop where
  cross : (highHalf v).toNat * (lowHalf v).toNat < 2 ^ 128
  lowSquare : (lowHalf v).toNat * (lowHalf v).toNat < 2 ^ 128
  highSquare : (highHalf v).toNat * (highHalf v).toNat < 2 ^ 128
  highWord : (highHalf v).toNat * (highHalf v).toNat + (crossProduct v >>> 63).toNat
    + (carry v).toNat < 2 ^ 128
  shifted : (crossProduct v >>> 63).toNat * 2 ^ 128 + (crossProduct v <<< 65).toNat
    = (highHalf v).toNat * (lowHalf v).toNat * 2 ^ 65
  carried : (carry v).toNat * 2 ^ 128 + (lowWord v).toNat
    = (lowHalf v).toNat * (lowHalf v).toNat + (crossProduct v <<< 65).toNat

/-! ## What leaves a word -/

/-- A shift to the left loses the bits that the complementary shift to the right keeps. -/
theorem shiftRight_add_shiftLeft {width count rest : Nat} (x : BitVec width)
    (h : rest + count = width) :
    (x >>> rest).toNat * 2 ^ width + (x <<< count).toNat = x.toNat * 2 ^ count := by
  have hquotient : x.toNat * 2 ^ count / 2 ^ width = x.toNat / 2 ^ rest := by
    have hpower : 2 ^ width = 2 ^ rest * 2 ^ count := by rw [← Nat.pow_add, h]
    rw [hpower, Nat.mul_div_mul_right _ _ (Nat.two_pow_pos count)]
  rw [BitVec.toNat_ushiftRight, BitVec.toNat_shiftLeft, Nat.shiftRight_eq_div_pow,
    Nat.shiftLeft_eq, ← hquotient, Nat.div_add_mod']

/-- A sum that is smaller than a summand has wrapped around, and no other has. -/
theorem wrapped_add_toNat (x y : BitVec 128) :
    (if x + y < x then 1#128 else 0#128).toNat * 2 ^ 128 + (x + y).toNat = x.toNat + y.toNat := by
  have hx := x.isLt
  have hy := y.isLt
  have hsum := BitVec.toNat_add x y
  by_cases hwrap : x + y < x
  · rw [if_pos hwrap, show (1#128).toNat = 1 from rfl]
    rw [BitVec.lt_def] at hwrap
    omega
  · rw [if_neg hwrap, show (0#128).toNat = 0 from rfl]
    rw [BitVec.lt_def] at hwrap
    omega

/-! ## Halves -/

variable (v : BitVec 128)

theorem halves_toNat : (highHalf v).toNat * 2 ^ 64 + (lowHalf v).toNat = v.toNat := by
  have hmask : (0xFFFFFFFFFFFFFFFF#128).toNat = 2 ^ 64 - 1 := by decide
  rw [highHalf, lowHalf, BitVec.toNat_ushiftRight, BitVec.toNat_and, hmask,
    Nat.and_two_pow_sub_one_eq_mod, Nat.shiftRight_eq_div_pow, Nat.div_add_mod']

theorem highHalf_lt : (highHalf v).toNat < 2 ^ 64 := by
  have := halves_toNat v
  have := v.isLt
  omega

theorem lowHalf_lt : (lowHalf v).toNat < 2 ^ 64 := by
  rw [lowHalf, BitVec.toNat_and]
  exact (Nat.and_le_right).trans_lt (by decide)

/-- Two halves have a product that leaves room for twice itself in the higher half. -/
theorem half_mul_half_le {a b : Nat} (ha : a < 2 ^ 64) (hb : b < 2 ^ 64) :
    a * b ≤ 2 ^ 128 - 2 ^ 65 + 1 :=
  Nat.mul_le_mul (Nat.le_pred_of_lt ha) (Nat.le_pred_of_lt hb)

theorem carry_le_one : (carry v).toNat ≤ 1 := by
  unfold carry
  split <;> decide

/-! ## The square -/

theorem nothingLost : NothingLost v := by
  have hhigh := highHalf_lt v
  have hlow := lowHalf_lt v
  have hcrossle := half_mul_half_le hhigh hlow
  have hlowle := half_mul_half_le hlow hlow
  have hhighle := half_mul_half_le hhigh hhigh
  have hcross : (crossProduct v).toNat = (highHalf v).toNat * (lowHalf v).toNat :=
    BitVec.toNat_mul_of_lt (by omega)
  have hlowSquare : (lowHalf v * lowHalf v).toNat = (lowHalf v).toNat * (lowHalf v).toNat :=
    BitVec.toNat_mul_of_lt (by omega)
  have hpushed : (crossProduct v >>> 63).toNat ≤ 2 ^ 65 - 4 := by
    rw [BitVec.toNat_ushiftRight, Nat.shiftRight_eq_div_pow, hcross]
    omega
  have hcarry := carry_le_one v
  exact
    { cross := by omega
      lowSquare := by omega
      highSquare := by omega
      highWord := by omega
      shifted := hcross ▸ shiftRight_add_shiftLeft (crossProduct v) rfl
      carried := hlowSquare ▸ wrapped_add_toNat (lowHalf v * lowHalf v) (crossProduct v <<< 65) }

theorem withCross_toNat :
    (highHalf v * highHalf v + crossProduct v >>> 63).toNat
      = (highHalf v).toNat * (highHalf v).toNat + (crossProduct v >>> 63).toNat := by
  have hword := (nothingLost v).highWord
  have hsquare := BitVec.toNat_mul_of_lt (nothingLost v).highSquare
  rw [BitVec.toNat_add_of_lt (by omega), hsquare]

/-- The higher word of the square is the sum it is written as. -/
theorem highWord_toNat :
    (squareWords v).1.toNat = (highHalf v).toNat * (highHalf v).toNat
      + (crossProduct v >>> 63).toNat + (carry v).toNat := by
  have hword := (nothingLost v).highWord
  have hwithCross := withCross_toNat v
  rw [squareWords_eq, BitVec.toNat_add_of_lt (by omega), hwithCross]

/-- **The two words are the exact square.** What the shift of the cross product to the left loses
is what its shift to the right keeps. -/
theorem squareWords_toNat :
    (squareWords v).1.toNat * 2 ^ 128 + (squareWords v).2.toNat = v.toNat ^ 2 := by
  have hshifted := (nothingLost v).shifted
  have hcarried := (nothingLost v).carried
  rw [highWord_toNat, squareWords_eq, ← halves_toNat v]
  generalize (highHalf v).toNat = high at *
  generalize (lowHalf v).toNat = low at *
  calc (high * high + (crossProduct v >>> 63).toNat + (carry v).toNat) * 2 ^ 128
        + (lowWord v).toNat
      = high * high * 2 ^ 128 + (crossProduct v >>> 63).toNat * 2 ^ 128
          + ((carry v).toNat * 2 ^ 128 + (lowWord v).toNat) := by ring
    _ = high * high * 2 ^ 128
          + ((crossProduct v >>> 63).toNat * 2 ^ 128 + (crossProduct v <<< 65).toNat)
          + low * low := by rw [hcarried]; ring
    _ = high * high * 2 ^ 128 + high * low * 2 ^ 65 + low * low := by rw [hshifted]
    _ = (high * 2 ^ 64 + low) ^ 2 := by ring

/-- **Squaring loses nothing**, whatever the word. The two words are the exact square, they are formed
within 128 bits, and the only bits lost on the way are the ones that a neighbour takes over. -/
theorem squareWords_exact :
    (squareWords v).1.toNat * 2 ^ 128 + (squareWords v).2.toNat = v.toNat ^ 2 ∧
    (squareWords v).2.toNat < 2 ^ 128 ∧
    squareWords v
      = (highHalf v * highHalf v + crossProduct v >>> 63 + carry v, lowWord v) ∧
    NothingLost v :=
  ⟨squareWords_toNat v, (squareWords v).2.isLt, squareWords_eq v, nothingLost v⟩

example : squareWords (BitVec.allOnes 128) = (BitVec.allOnes 128 - 1, 1) := by decide +kernel

end ExponentialHistogram.Threshold
