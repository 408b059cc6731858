/-
ExponentialHistogram.Proofs.Binary64.Words — putting a double together leaves
no word.

Rounding up, written once more in words of 64 bits and exponents of 32, with
operations that fail where the result does not fit and with the demands on the
argument checked first: the exponent of some double, and a significand of 52
bits. Nothing fails on a number that meets them (`ceil?_eq`). The fields of a
normal number do not overlap, so laying them over each other is adding them; a
subnormal number is shifted by at most 52 places, so what is added before the
shift leaves the word half empty.
-/
import Mathlib
import ExponentialHistogram.Proofs.Binary64.Decomposition
import ExponentialHistogram.Proofs.Threshold.Checked

namespace ExponentialHistogram.Binary64

namespace Checked

open Threshold.Checked (add? shiftLeft? bind_eq_of_eq_some add?_eq_some shiftLeft?_eq_some)

/-! ## Operations that can fail -/

/-- A signed number of 32 bits. -/
def int32? (n : Int) : Option Int := if -2 ^ 31 ≤ n ∧ n < 2 ^ 31 then some n else none

/-- A signed number read as one without sign. -/
def unsigned? (n : Int) : Option Nat := if 0 ≤ n then some n.toNat else none

def sub? {width : Nat} (x y : BitVec width) : Option (BitVec width) :=
  if y.toNat ≤ x.toNat then some (x - y) else none

/-- A shift to the right by less than the width. -/
def shiftRight? {width : Nat} (x : BitVec width) (count : Nat) : Option (BitVec width) :=
  if count < width then some (x >>> count) else none

theorem int32?_eq_some {n : Int} (hlow : -2 ^ 31 ≤ n) (hhigh : n < 2 ^ 31) : int32? n = some n :=
  if_pos ⟨hlow, hhigh⟩

theorem unsigned?_eq_some {n : Int} (h : 0 ≤ n) : unsigned? n = some n.toNat := if_pos h

theorem sub?_eq_some {width : Nat} {x y : BitVec width} (h : y.toNat ≤ x.toNat) :
    sub? x y = some (x - y) :=
  if_pos h

theorem shiftRight?_eq_some {width : Nat} {x : BitVec width} {count : Nat} (h : count < width) :
    shiftRight? x count = some (x >>> count) :=
  if_pos h

/-- The smallest double not below the number, for the numbers that it is meant for. -/
def ceil? (exponent : Int) (significand : BitVec 64) : Option Binary64 := do
  guard (minSubnormalExponent ≤ exponent ∧ exponent ≤ maxNormalExponent)
  guard (significand.toNat ≤ maxSignificand)
  if minNormalExponent ≤ exponent then
    let biased ← int32? (exponent + exponentBias)
    let field ← unsigned? biased
    let shifted ← shiftLeft? (BitVec.ofNat 64 field) 52
    return ⟨⟨shifted ||| significand⟩⟩
  else
    let places ← int32? (minNormalExponent - exponent)
    let shift ← unsigned? places
    let full := 1#64 <<< 52 ||| significand
    let step ← shiftLeft? 1#64 shift
    let sum ← add? full step
    let last ← sub? sum 1
    let units ← shiftRight? last shift
    return ⟨⟨units⟩⟩

/-! ## Fields -/

/-- A significand laid over an exponent field is added to it. -/
theorem toNat_or_significand {field significand : Nat} (hsignificand : significand < 2 ^ 52)
    (hfield : field < 2 ^ 12) :
    (BitVec.ofNat 64 field <<< 52 ||| BitVec.ofNat 64 significand).toNat
      = field * 2 ^ 52 + significand := by
  rw [BitVec.toNat_or, BitVec.toNat_shiftLeft, BitVec.toNat_ofNat, BitVec.toNat_ofNat,
    Nat.shiftLeft_eq, Nat.mod_eq_of_lt (show field < 2 ^ 64 by omega),
    Nat.mod_eq_of_lt (show field * 2 ^ 52 < 2 ^ 64 by omega),
    Nat.mod_eq_of_lt (show significand < 2 ^ 64 by omega), Nat.mul_comm,
    ← Nat.two_pow_add_eq_or_of_lt hsignificand]

theorem toNat_le_maxSignificand {significand : Nat} (h : significand < 2 ^ 52) :
    (BitVec.ofNat 64 significand).toNat ≤ maxSignificand := by
  rw [BitVec.toNat_ofNat, Nat.mod_eq_of_lt (by omega), maxSignificand]
  omega

theorem mk_eq_ofBitsNat {w : BitVec 64} {n : Nat} (h : w.toNat = n) :
    (⟨⟨w⟩⟩ : Binary64) = ofBitsNat n := by
  subst h
  refine congrArg mk (UInt64.toNat_inj.mp ?_)
  rw [UInt64.toNat_ofNat', Nat.mod_eq_of_lt w.isLt]
  rfl

/-! ## Rounding up -/

variable {n : Normalized}

theorem ceil?_of_normal (hn : n.InRange) (hnormal : minNormalExponent ≤ n.exponent) :
    ceil? n.exponent (BitVec.ofNat 64 n.significand) = some n.ceil := by
  obtain ⟨hlow, hhigh, hsignificand⟩ := hn
  obtain ⟨field, hfield⟩ : ∃ field : Nat, n.exponent + exponentBias = field := by
    refine ⟨(n.exponent + exponentBias).toNat, (Int.toNat_of_nonneg ?_).symm⟩
    simp only [minNormalExponent, exponentBias] at hnormal ⊢
    omega
  have hbound : field < 2 ^ 11 := by
    simp only [maxNormalExponent, exponentBias] at hhigh hfield
    omega
  have hmask := toNat_le_maxSignificand hsignificand
  have hshift : (BitVec.ofNat 64 field).toNat * 2 ^ 52 < 2 ^ 64 := by
    rw [BitVec.toNat_ofNat, Nat.mod_eq_of_lt (by omega)]
    omega
  rw [ceil?, guard, if_pos ⟨hlow, hhigh⟩, guard, if_pos hmask, if_pos hnormal, hfield,
    Normalized.ceil, if_pos hnormal, hfield, Int.toNat_natCast]
  simp only [pure_bind]
  rw [bind_eq_of_eq_some (int32?_eq_some (by omega) (by omega)),
    bind_eq_of_eq_some (unsigned?_eq_some (Int.natCast_nonneg field)), Int.toNat_natCast,
    bind_eq_of_eq_some (shiftLeft?_eq_some hshift)]
  exact congrArg some (mk_eq_ofBitsNat (toNat_or_significand hsignificand (by omega)))

theorem ceil?_of_subnormal (hn : n.InRange) (hsubnormal : ¬ minNormalExponent ≤ n.exponent) :
    ceil? n.exponent (BitVec.ofNat 64 n.significand) = some n.ceil := by
  obtain ⟨hlow, hhigh, hsignificand⟩ := hn
  obtain ⟨shift, hshift⟩ : ∃ shift : Nat, minNormalExponent - n.exponent = shift :=
    ⟨(minNormalExponent - n.exponent).toNat, by omega⟩
  have hcount : shift ≤ 52 := by
    simp only [minSubnormalExponent, minNormalExponent] at hlow hshift
    omega
  have hmask := toNat_le_maxSignificand hsignificand
  have hstep : 0 < 2 ^ shift ∧ 2 ^ shift ≤ 2 ^ 52 :=
    ⟨Nat.two_pow_pos _, Nat.pow_le_pow_right (by decide) hcount⟩
  have hone : (1#64 <<< shift).toNat = 2 ^ shift := by
    rw [BitVec.toNat_shiftLeft, Nat.shiftLeft_eq, show (1#64).toNat = 1 from rfl, Nat.one_mul,
      Nat.mod_eq_of_lt (by omega)]
  rw [ceil?, guard, if_pos ⟨hlow, hhigh⟩, guard, if_pos hmask, if_neg hsubnormal, hshift,
    Normalized.ceil, if_neg hsubnormal, hshift, Int.toNat_natCast]
  simp only [pure_bind]
  -- The number with its leading one, and what is added to it to round up.
  have hfull : (1#64 <<< 52 ||| BitVec.ofNat 64 n.significand).toNat = 2 ^ 52 + n.significand :=
    (toNat_or_significand hsignificand (by decide : 1 < 2 ^ 12)).trans (by rw [Nat.one_mul])
  generalize 1#64 <<< 52 ||| BitVec.ofNat 64 n.significand = full at hfull
  have hsum : (full + 1#64 <<< shift).toNat = 2 ^ 52 + n.significand + 2 ^ shift := by
    rw [BitVec.toNat_add, hfull, hone, Nat.mod_eq_of_lt (by omega)]
  have hpred : (1 : BitVec 64).toNat ≤ (full + 1#64 <<< shift).toNat := by
    rw [hsum, show (1 : BitVec 64).toNat = 1 from rfl]
    omega
  have hlast : (full + 1#64 <<< shift - 1).toNat = 2 ^ 52 + n.significand + 2 ^ shift - 1 := by
    rw [BitVec.toNat_sub_of_le (BitVec.le_def.mpr hpred), hsum]
    rfl
  have hunits : ((full + 1#64 <<< shift - 1) >>> shift).toNat
      = (2 ^ 52 + n.significand + 2 ^ shift - 1) / 2 ^ shift := by
    rw [BitVec.toNat_ushiftRight, hlast, Nat.shiftRight_eq_div_pow]
  rw [bind_eq_of_eq_some (int32?_eq_some (by omega) (by omega)),
    bind_eq_of_eq_some (unsigned?_eq_some (Int.natCast_nonneg shift)), Int.toNat_natCast,
    bind_eq_of_eq_some (shiftLeft?_eq_some ?_), bind_eq_of_eq_some (add?_eq_some ?_),
    bind_eq_of_eq_some (sub?_eq_some hpred), bind_eq_of_eq_some (shiftRight?_eq_some (by omega))]
  · exact congrArg some (mk_eq_ofBitsNat hunits)
  · rw [hfull, hone]
    omega
  · rw [show (1#64).toNat = 1 from rfl]
    omega

/-- **Nothing is lost in rounding up**, and the demands on its argument are met. -/
theorem ceil?_eq (hn : n.InRange) :
    ceil? n.exponent (BitVec.ofNat 64 n.significand) = some n.ceil := by
  by_cases hnormal : minNormalExponent ≤ n.exponent
  · exact ceil?_of_normal hn hnormal
  · exact ceil?_of_subnormal hn hnormal

end Checked

end ExponentialHistogram.Binary64
