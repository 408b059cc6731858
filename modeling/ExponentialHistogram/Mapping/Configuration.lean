/-
ExponentialHistogram.Mapping.Configuration — the choice of a mapping as data.

A configuration names a scale, a strategy for positive scales and a boundary
convention. Building it yields the mapping, deriving the table for it if it
needs one that is not there. Written out it is a JSON object with its three
members in a fixed order.
-/
import ExponentialHistogram.Mapping.Basic

namespace ExponentialHistogram

/-- How positive scales find buckets. Other scales have one way only. -/
inductive Strategy where
  | lookupTable
  | logarithm
deriving DecidableEq, Inhabited, Repr

structure Configuration where
  scale : Int
  strategy : Strategy := .lookupTable
  convention : Convention := .lowerInclusive
deriving DecidableEq, Repr

def Strategy.name : Strategy → String
  | lookupTable => "lookup_table"
  | logarithm => "logarithm"

def Convention.name : Convention → String
  | lowerInclusive => "lower_inclusive"
  | upperInclusive => "upper_inclusive"

namespace Configuration

/-- The mapping that is configured. -/
def build (estimates : Estimates) (c : Configuration) (cache : Threshold.Cache) :
    Except MappingError Mapping × Threshold.Cache :=
  match ScaleRange.all.require c.scale with
  | .error e => (.error e, cache)
  | .ok () =>
    if c.scale ∈ ScaleRange.coarse then (Mapping.ofPowers c.scale c.convention, cache)
    else match c.strategy with
      | .lookupTable => Mapping.ofScale estimates c.scale c.convention cache
      | .logarithm => (Mapping.ofLogarithm c.scale c.convention, cache)

/-- The configuration as a JSON object without white space. -/
def text (c : Configuration) : String :=
  "\x7b\"scale\":" ++ toString c.scale ++ ",\"strategy\":\"" ++ c.strategy.name ++
    "\",\"boundary\":\"" ++ c.convention.name ++ "\"\x7d"

end Configuration

end ExponentialHistogram
