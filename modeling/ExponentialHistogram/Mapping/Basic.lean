/-
ExponentialHistogram.Mapping.Basic — from numbers to bucket indices and back.

A mapping says which bucket a number falls into, and where a bucket starts.
There are three ways to divide the number line, and two conventions for
numbers that lie on a boundary. Everything else is common to all of them:
only positive finite numbers have a bucket, and only the buckets between
that of the smallest and that of the largest number have a start.
-/
import ExponentialHistogram.Mapping.Convention
import ExponentialHistogram.Mapping.Logarithm
import ExponentialHistogram.Threshold.Cache

namespace ExponentialHistogram

open Binary64 (Normalized minSubnormalExponent minPositive)

/-- How the positive numbers are divided into buckets. -/
inductive Partition where
  /-- A bucket holds `2 ^ shift` powers of two. -/
  | powers (shift : Nat)
  /-- Each power of two is divided at the entries of a table. -/
  | table (t : Threshold.Table)
  /-- Each power of two is divided into `2 ^ scale` buckets, found by logarithm. -/
  | logarithm (scale : Nat)
deriving DecidableEq

namespace Partition

def scale : Partition → Int
  | powers shift => -shift
  | table t => t.scale
  | logarithm scale => scale

end Partition

/-- A partition together with a convention for its boundaries. -/
structure Mapping where
  partition : Partition
  convention : Convention
deriving DecidableEq

/-- The smallest positive double that is not below the number, also where the exponent lies below
that of every double. -/
def Binary64.Normalized.ceilPositive (n : Normalized) : Binary64 :=
  if n.exponent < minSubnormalExponent then minPositive else n.ceil

namespace Mapping

variable (estimates : Estimates)

def scale (m : Mapping) : Int := m.partition.scale

/-- The index of the bucket that holds the number. -/
def bucket (m : Mapping) (n : Normalized) : Int :=
  let correction := m.convention.correction n.significand
  match m.partition with
  | .powers shift => (n.exponent - correction) / 2 ^ shift
  | .table t => n.exponent * 2 ^ t.scale + t.position n.significand - correction
  | .logarithm scale =>
    n.exponent * 2 ^ scale + Logarithm.position estimates scale n.significand - correction

/-- The boundary at which a bucket starts, rounded up to 53 bits. The index is split into an exponent
and the position within that power of two. -/
def boundary (m : Mapping) (index : Int) : Normalized :=
  match m.partition with
  | .powers shift => ⟨index * 2 ^ shift, 0⟩
  | .table t => ⟨index / 2 ^ t.scale, t.entry (index % 2 ^ t.scale).toNat⟩
  | .logarithm scale =>
    ⟨index / 2 ^ scale, Logarithm.entry estimates scale (index % 2 ^ scale).toNat⟩

def minIndex (m : Mapping) : Int := m.bucket estimates minPositive.normalized

def maxIndex (m : Mapping) : Int := m.bucket estimates Binary64.maxFinite.normalized

/-- The index of the bucket that holds the value. -/
def index (m : Mapping) (value : Binary64) : Except MappingError Int :=
  if value.isPositiveFinite then .ok (m.bucket estimates value.normalized)
  else .error (.notPositiveFinite value)

/-- The smallest double that is not below the start of the bucket. -/
def lowerBound (m : Mapping) (index : Int) : Except MappingError Binary64 :=
  if m.minIndex estimates ≤ index ∧ index ≤ m.maxIndex estimates then
    .ok (m.boundary estimates index).ceilPositive
  else .error (.indexOutOfRange index (m.minIndex estimates) (m.maxIndex estimates))

/-! ## Construction -/

/-- The mapping of whole powers of two. -/
def ofPowers (scale : Int) (convention : Convention) : Except MappingError Mapping := do
  ScaleRange.coarse.require scale
  return ⟨.powers scale.natAbs, convention⟩

/-- The mapping by logarithm. -/
def ofLogarithm (scale : Int) (convention : Convention) : Except MappingError Mapping := do
  ScaleRange.fine.require scale
  return ⟨.logarithm scale.toNat, convention⟩

/-- The mapping over a table that is at hand. -/
def ofTable (t : Threshold.Table) (convention : Convention) : Mapping := ⟨.table t, convention⟩

/-- The mapping by table, with the table from the cache or derived into it. -/
def ofScale (scale : Int) (convention : Convention) (cache : Threshold.Cache) :
    Except MappingError Mapping × Threshold.Cache :=
  let (table, cache) := cache.request estimates scale
  (table.map (ofTable · convention), cache)

end Mapping

end ExponentialHistogram
