/-
ExponentialHistogram.Binary64.Basic — double-precision numbers as their 64
bits.

A histogram bucket is decided by two numbers read off a double: the binary
exponent and the 52 bits behind the leading one. This module names the
fields of the format, brings a double into that normalized shape
(subnormals included) and goes back by rounding up. The bits themselves are
the type, so that the payload of a NaN survives and equality is equality of
bits.
-/
import ExponentialHistogram.Powers

namespace ExponentialHistogram

/-- A double-precision number, given by its bits. -/
structure Binary64 where
  bits : UInt64
deriving DecidableEq, Inhabited, Repr

/-- The number of binary digits of `n`; zero has none. -/
def bitLength (n : Nat) : Nat := if n = 0 then 0 else n.log2 + 1

namespace Binary64

/-! ## The format -/

/-- Bits of the significand field. -/
def significandWidth : Nat := 52

/-- Bits of the exponent field. -/
def exponentWidth : Nat := 11

/-- The largest content of the significand field. -/
def maxSignificand : Nat := 2 ^ 52 - 1

/-- The content of the exponent field of infinities and NaNs. -/
def specialExponentField : Nat := 2 ^ 11 - 1

/-- What the exponent field of a normal number adds to its exponent. -/
def exponentBias : Nat := 1023

/-- The exponent of the smallest normal number. -/
def minNormalExponent : Int := -1022

/-- The exponent of the largest finite number. -/
def maxNormalExponent : Int := 1023

/-- The exponent of the smallest positive number. -/
def minSubnormalExponent : Int := -1074

/-- The smallest positive number, `2 ^ -1074`. -/
def minPositive : Binary64 := ⟨1⟩

/-- The largest finite number. -/
def maxFinite : Binary64 := ⟨0x7FEFFFFFFFFFFFFF⟩

def infinity : Binary64 := ⟨0x7FF0000000000000⟩

def nan : Binary64 := ⟨0x7FF8000000000000⟩

/-- The double whose bits, read as a number, are `n` (below `2 ^ 64`). -/
def ofBitsNat (n : Nat) : Binary64 := ⟨UInt64.ofNat n⟩

/-! ## Fields -/

def signField (x : Binary64) : Nat := x.bits.toNat / 2 ^ 63

def exponentField (x : Binary64) : Nat := x.bits.toNat / 2 ^ 52 % 2 ^ 11

def significand (x : Binary64) : Nat := x.bits.toNat % 2 ^ 52

def isSubnormal (x : Binary64) : Bool := x.exponentField == 0 && x.significand != 0

def isNaN (x : Binary64) : Bool := x.exponentField == specialExponentField && x.significand != 0

/-- Positive and neither infinite nor a NaN: the numbers that have a bucket. -/
def isPositiveFinite (x : Binary64) : Bool :=
  x.signField == 0 && x.bits != 0 && x.exponentField != specialExponentField

/-! ## The normalized shape -/

/-- The number `2 ^ exponent * (1 + significand / 2 ^ 52)`, where `significand < 2 ^ 52`. -/
structure Normalized where
  exponent : Int
  significand : Nat
deriving DecidableEq, Repr

/-- The normalized shape of a positive finite number, whatever its sign bit. A subnormal number
is shifted until its leading one is the implicit bit. Zero, infinities and NaNs give their
fields in the same way. -/
def normalized (x : Binary64) : Normalized :=
  if x.exponentField = 0 then
    let shift := 53 - bitLength x.significand
    ⟨minNormalExponent - shift, x.significand * 2 ^ shift % 2 ^ 52⟩
  else
    ⟨x.exponentField - exponentBias, x.significand⟩

/-- Whether the magnitude is a finite power of two. -/
def isPowerOfTwo (x : Binary64) : Bool :=
  x.bits.toNat % 2 ^ 63 != 0 && x.exponentField != specialExponentField
    && x.normalized.significand == 0

/-- The smallest double that is not below the number. From the smallest normal number on every
normalized number is a double; below, doubles are the multiples of `2 ^ -1074`. Meant for exponents
from `minSubnormalExponent` to `maxNormalExponent`. -/
def Normalized.ceil (n : Normalized) : Binary64 :=
  if minNormalExponent ≤ n.exponent then
    ofBitsNat ((n.exponent + exponentBias).toNat * 2 ^ 52 + n.significand)
  else
    let shift := (minNormalExponent - n.exponent).toNat
    ofBitsNat ((2 ^ 52 + n.significand + 2 ^ shift - 1) / 2 ^ shift)

/-! ## The exact magnitude -/

/-- The magnitude of a finite number, counted in units of `2 ^ -1074`. -/
def units (x : Binary64) : Nat :=
  if x.exponentField = 0 then x.significand
  else (2 ^ 52 + x.significand) * 2 ^ (x.exponentField - 1)

/-- How many units of `2 ^ -1074` make one. -/
def unitsPerOne : Nat := 2 ^ 1074

end Binary64

end ExponentialHistogram
