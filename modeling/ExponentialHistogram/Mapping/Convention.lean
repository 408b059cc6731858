/-
ExponentialHistogram.Mapping.Convention — which bucket a boundary belongs to.
-/

namespace ExponentialHistogram

/-- Whether a bucket holds its lower or its upper boundary. -/
inductive Convention where
  | lowerInclusive
  | upperInclusive
deriving DecidableEq, Inhabited, Repr

namespace Convention

/-- How far the index of a number falls back when it lies on a boundary. Among doubles only powers
of two lie on one, and these have significand zero. -/
def correction : Convention → (significand : Nat) → Int
  | lowerInclusive, _ => 0
  | upperInclusive, significand => if significand = 0 then 1 else 0

end Convention

end ExponentialHistogram
