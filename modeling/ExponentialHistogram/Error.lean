/-
ExponentialHistogram.Error — why a mapping has no answer.
-/
import ExponentialHistogram.Decimal.Positional
import ExponentialHistogram.Scale

namespace ExponentialHistogram

/-- The reasons for which building or asking a mapping fails. -/
inductive MappingError where
  /-- Only positive finite numbers have a bucket. -/
  | notPositiveFinite (value : Binary64)
  /-- The bucket lies outside of the indices that positive finite numbers take. -/
  | indexOutOfRange (index minIndex maxIndex : Int)
  | scaleOutOfRange (scale : Int) (permitted : ScaleRange)
  /-- No exact threshold was found at this position. -/
  | undecided (scale : Int) (position : Nat)
deriving DecidableEq, Repr

namespace MappingError

def message : MappingError → String
  | notPositiveFinite value =>
    s!"Value must be a positive, finite number, got {String.ofList value.positional}."
  | indexOutOfRange index minIndex maxIndex =>
    s!"Index {index} is out of range: lower boundaries are only representable for indices in " ++
      s!"[{minIndex}, {maxIndex}]."
  | scaleOutOfRange scale permitted =>
    s!"Scale {scale} is outside of the permitted range [{permitted.least}, {permitted.greatest}]."
  | undecided scale position =>
    s!"Unable to decide the significand threshold at position {position} for scale {scale}."

end MappingError

/-- Fails unless the scale is permitted. -/
def ScaleRange.require (r : ScaleRange) (scale : Int) : Except MappingError Unit :=
  if scale ∈ r then .ok () else .error (.scaleOutOfRange scale r)

end ExponentialHistogram
