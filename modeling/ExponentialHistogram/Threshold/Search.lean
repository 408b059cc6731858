/-
ExponentialHistogram.Threshold.Search — thresholds found from an estimate.

`attains?` compares a power of the candidate with the power of two it has to
attain, through bounds with 128 bits. It answers `none` where the bounds do
not tell, instead of guessing. `seek?` walks from an estimate to the
threshold by such comparisons. However bad the estimate, what it finds is
decided by the comparisons alone; an estimate that is too far off, or a
comparison without an answer, makes it give up.
-/
import ExponentialHistogram.Threshold.Basic
import ExponentialHistogram.Threshold.WideFloat

namespace ExponentialHistogram.Threshold

/-- The target exponent as a signed number of 64 bits. Only positions far beyond every table are so
large that it differs from the target. -/
def signedTarget (scale position : Nat) : Int := (target scale position : Int).bmod (2 ^ 64)

/-- Whether `candidate ^ (2 ^ scale)` is at least `2 ^ signedTarget scale position`, if the bounds tell.
A normalized bound lies between `2 ^ (exponent + 127)` and `2 ^ (exponent + 128)`. -/
def attains? (candidate scale position : Nat) : Option Bool :=
  let goal := signedTarget scale position
  let power := Enclosure.squareTimes scale (.exact (.ofNat candidate))
  if goal ≤ power.lower.exponent + 127 then some true
  else if power.upper.exponent + 128 ≤ goal then some false
  else none

/-- How many steps a walk may take, both directions together. -/
def maxSteps : Nat := 64

/-- Goes up until the candidate attains the position. Gives the candidate and the steps left. It
does not leave the numbers of 64 bits. -/
def climb? (scale position : Nat) : (steps candidate : Nat) → Option (Nat × Nat)
  | steps, candidate =>
    match attains? candidate scale position with
    | none => none
    | some true => some (candidate, steps)
    | some false =>
      match steps with
      | 0 => none
      | steps + 1 =>
        if candidate + 1 < 2 ^ 64 then climb? scale position steps (candidate + 1) else none

/-- Goes down until the predecessor no longer attains the position. -/
def descend? (scale position : Nat) : (steps candidate : Nat) → Option Nat
  | steps, candidate =>
    match attains? (candidate - 1) scale position with
    | none => none
    | some false => some candidate
    | some true =>
      match steps with
      | 0 => none
      | steps + 1 => descend? scale position steps (candidate - 1)

/-- The significand of the threshold at the position, walking from an estimated significand. -/
def seek? (scale position estimate : Nat) : Option Nat := do
  let (candidate, steps) ← climb? scale position maxSteps (estimate ||| 2 ^ 52)
  let threshold ← descend? scale position steps candidate
  return threshold % 2 ^ 52

end ExponentialHistogram.Threshold
