/-
ExponentialHistogram.Threshold.Root — thresholds by exact integer roots.

The slow and independent way to a threshold: take the integer square root of
the target power as often as the scale says, and correct the result against
the exact powers. Numbers have as many digits as they need, so nothing is
estimated and nothing is undecided.
-/
import ExponentialHistogram.Threshold.Basic
import ExponentialHistogram.Binary64.Basic

namespace ExponentialHistogram.Threshold

/-- Improves a guess above the square root of `n` until it no longer shrinks. -/
def shrinkRoot (n guess : Nat) : Nat :=
  let better := (guess + n / guess) / 2
  if better < guess then shrinkRoot n better else guess
termination_by guess

/-- The integer part of the square root. The first guess is a power of two above the root. -/
def floorSqrt (n : Nat) : Nat :=
  if n = 0 then 0 else shrinkRoot n (2 ^ ((bitLength n + 1) / 2))

/-- The integer square root, taken `times` times. -/
def nestedRoot : (times n : Nat) → Nat
  | 0, n => n
  | times + 1, n => nestedRoot times (floorSqrt n)

/-- Adds one until the power attains the goal. -/
def raiseTo (goal power candidate : Nat) : Nat :=
  if candidate < goal ∧ candidate ^ power < goal then raiseTo goal power (candidate + 1)
  else candidate
termination_by goal - candidate

/-- Subtracts one while the power of the predecessor attains the goal. -/
def lowerTo (goal power : Nat) : (candidate : Nat) → Nat
  | 0 => 0
  | below + 1 => if below ^ power < goal then below + 1 else lowerTo goal power below

/-- The least number that attains the position. -/
def leastAttaining (scale position : Nat) : Nat :=
  let goal := 2 ^ target scale position
  lowerTo goal (2 ^ scale) (raiseTo goal (2 ^ scale) (nestedRoot scale goal))

/-- The significand of the threshold at the position, if it fits in 64 bits. Positions past the
end of a table have thresholds too; theirs exceed 52 bits. Thirteen tables further on the threshold
is `2 ^ 65` at least, so there is no need to find it. -/
def rootEntry? (scale position : Nat) : Option Nat :=
  if 13 * 2 ^ scale ≤ position then none
  else
    let significand := leastAttaining scale position - 2 ^ 52
    if significand < 2 ^ 64 then some significand else none

end ExponentialHistogram.Threshold
