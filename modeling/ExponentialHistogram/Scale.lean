/-
ExponentialHistogram.Scale — the resolutions a histogram can have.

At scale `s` the bucket boundaries are the numbers `2 ^ (i / 2 ^ s)`. A
negative scale gives wide buckets of several powers of two, a positive one
cuts each power of two into `2 ^ s` buckets. Each way of finding a bucket
works for a range of scales.
-/

namespace ExponentialHistogram

/-- The scales from `least` to `greatest`, both included. -/
structure ScaleRange where
  least : Int
  greatest : Int
deriving DecidableEq, Repr

namespace ScaleRange

instance : Membership Int ScaleRange where
  mem r s := r.least ≤ s ∧ s ≤ r.greatest

instance (s : Int) (r : ScaleRange) : Decidable (s ∈ r) :=
  inferInstanceAs (Decidable (r.least ≤ s ∧ s ≤ r.greatest))

/-- Scales at which a bucket holds one or more whole powers of two. -/
def coarse : ScaleRange := ⟨-10, 0⟩

/-- Scales at which a power of two is cut into buckets. -/
def fine : ScaleRange := ⟨1, 20⟩

/-- Scales whose thresholds are part of the library. -/
def builtin : ScaleRange := ⟨1, 10⟩

/-- All scales. -/
def all : ScaleRange := ⟨-10, 20⟩

end ScaleRange

end ExponentialHistogram
