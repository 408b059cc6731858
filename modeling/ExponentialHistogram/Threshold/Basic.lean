/-
ExponentialHistogram.Threshold.Basic — what a bucket threshold is.

At scale `s` each power-of-two range is cut into `2 ^ s` buckets, and the
one at position `k` begins at `2 ^ (k / 2 ^ s)`. Among the numbers
`m / 2 ^ 52` the first that lies in it belongs to the least `m` with
`m ^ (2 ^ s) ≥ 2 ^ (52 * 2 ^ s + k)`, a statement about whole numbers. Every
table, search and estimate of this library is measured against it.
-/
import ExponentialHistogram.Powers

namespace ExponentialHistogram.Threshold

/-- The exponent of the power of two that the candidate's power has to attain. -/
def target (scale position : Nat) : Nat := 52 * 2 ^ scale + position

/-- The number `m / 2 ^ 52` is not below the bucket boundary `2 ^ (position / 2 ^ scale)`. -/
def Attains (m scale position : Nat) : Prop := 2 ^ target scale position ≤ m ^ 2 ^ scale

instance (m scale position : Nat) : Decidable (Attains m scale position) :=
  inferInstanceAs (Decidable (_ ≤ _))

/-- The number `m` is the least that attains the position. -/
structure IsThreshold (m scale position : Nat) : Prop where
  attains : Attains m scale position
  least : ∀ n, Attains n scale position → m ≤ n

end ExponentialHistogram.Threshold
