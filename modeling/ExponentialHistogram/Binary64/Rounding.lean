/-
ExponentialHistogram.Binary64.Rounding — arithmetic that rounds once.

Sums, products and quotients of non-negative doubles are computed as exact
fractions and rounded to the nearest double, a tie to the one whose last
bit is zero. One function, `nearestUnits`, does all the rounding; the
operations only say which fraction they mean.
-/
import ExponentialHistogram.Binary64.Basic

namespace ExponentialHistogram

/-- The integer nearest to `num / den`; of two equally near ones the even one. -/
def roundHalfEven (num den : Nat) : Nat :=
  let quotient := num / den
  let twice := 2 * (num % den)
  if twice < den then quotient
  else if den < twice then quotient + 1
  else quotient + quotient % 2

namespace Binary64

/-- The double nearest to `num / den` units of `2 ^ -1074`, ties to even, infinity beyond the
largest. A binade above the first two has a coarser grid, `2 ^ shift` units wide, and the bits of
its doubles are `shift * 2 ^ 52` plus the multiple; a multiple rounded up to `2 ^ 53` carries into
the next binade by itself. -/
def nearestUnits (num den : Nat) : Binary64 :=
  let shift := bitLength (num / den) - 53
  let bits := shift * 2 ^ 52 + roundHalfEven num (den * 2 ^ shift)
  if bits < infinity.bits.toNat then ofBitsNat bits else infinity

/-- The double nearest to `num / den`. -/
def ofRatio (num den : Nat) : Binary64 := nearestUnits (num * unitsPerOne) den

def ofNat (n : Nat) : Binary64 := ofRatio n 1

/-! The operations take finite, non-negative numbers. -/

def add (x y : Binary64) : Binary64 := nearestUnits (x.units + y.units) 1

def mul (x y : Binary64) : Binary64 := nearestUnits (x.units * y.units) unitsPerOne

/-- The quotient; by zero it is infinite, and zero by zero is a NaN. -/
def div (x y : Binary64) : Binary64 :=
  if y.units = 0 then if x.units = 0 then nan else infinity
  else nearestUnits (x.units * unitsPerOne) y.units

end Binary64

end ExponentialHistogram
