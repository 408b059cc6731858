/-
ExponentialHistogram.Mapping.Logarithm — positions from a logarithm.

Without a table, the position of a significand within its power of two is
read off an estimated logarithm. Away from whole numbers the estimate is
good enough. Near one it may have slipped over, and exact comparisons settle
on which side it belongs.
-/
import ExponentialHistogram.Binary64.Rounding
import ExponentialHistogram.Estimates
import ExponentialHistogram.Threshold.Search

namespace ExponentialHistogram

namespace Binary64

/-- The integer part of a number; a negative one counts as zero. -/
def wholePart (x : Binary64) : Nat := if x.signField = 0 then x.units / unitsPerOne else 0

/-- The distance from the next integer below, in units of `2 ^ -1074`. -/
def fractionUnits (x : Binary64) : Nat :=
  let fraction := x.units % unitsPerOne
  if x.signField = 0 then fraction else (unitsPerOne - fraction) % unitsPerOne

/-- The distance from the next integer below, as a double. -/
def offset (x : Binary64) : Binary64 := nearestUnits x.fractionUnits 1

/-- The double nearest to a millionth. -/
def margin : Binary64 := ofRatio 1 (10 ^ 6)

def oneLessMargin : Binary64 := nearestUnits (unitsPerOne - margin.units) 1

/-- Whether an integer is closer than the margin. -/
def isNearInteger (x : Binary64) : Bool :=
  x.offset.units < margin.units || oneLessMargin.units < x.offset.units

/-- The double nearest to the natural logarithm of two. -/
def ln2 : Binary64 := ⟨0x3FE62E42FEFA39EF⟩

end Binary64

namespace Logarithm

open Threshold (attains? seek?)

/-- Positions per unit of the natural logarithm. -/
def scaleFactor (scale : Nat) : Binary64 := (Binary64.ofNat (2 ^ scale)).div .ln2

/-- The natural logarithm of the ratio of two neighbouring boundaries. -/
def inverseScaleFactor (scale : Nat) : Binary64 := Binary64.ln2.div (.ofNat (2 ^ scale))

/-- The largest position within a power of two. -/
def lastPosition (scale : Nat) : Nat := 2 ^ scale - 1

/-- The position of the significand, given a guess that is at most one off. -/
def settle (scale significand guess : Nat) : Nat :=
  let candidate := 2 ^ 52 + significand
  if 0 < guess ∧ attains? candidate scale guess = some false then guess - 1
  else if guess < lastPosition scale ∧ attains? candidate scale (guess + 1) = some true then guess + 1
  else guess

/-- The position of a significand whose scaled logarithm is estimated as `estimate`. Rounding can
push the estimate of a number just below two up to the next power of two, hence the bound. -/
def positionOfEstimate (scale significand : Nat) (estimate : Binary64) : Nat :=
  let guess := min estimate.wholePart (lastPosition scale)
  if estimate.isNearInteger then settle scale significand guess else guess

def position (estimates : Estimates) (scale significand : Nat) : Nat :=
  positionOfEstimate scale significand (estimates.position scale significand)

/-- The threshold significand at a position. If the search gives up, the estimate stands in. -/
def entry (estimates : Estimates) (scale position : Nat) : Nat :=
  let estimate := estimates.byExp scale position % 2 ^ 52
  (seek? scale position estimate).getD estimate

end Logarithm

end ExponentialHistogram
