/-
ExponentialHistogram.Threshold.Table — all thresholds of one scale.

The tables of scales 1 to 10 are part of the library. Those of scales 11 to
20 are derived on demand, one position after the other; a position that
cannot be decided fails the whole table.
-/
import ExponentialHistogram.Error
import ExponentialHistogram.Estimates
import ExponentialHistogram.Threshold.Coarser
import ExponentialHistogram.Threshold.Finest
import ExponentialHistogram.Threshold.Search

namespace ExponentialHistogram.Threshold

/-- The thresholds of a scale that are part of the library. -/
def builtinThresholds? : (scale : Int) → Option (Array Nat)
  | 1 => some thresholds1
  | 2 => some thresholds2
  | 3 => some thresholds3
  | 4 => some thresholds4
  | 5 => some thresholds5
  | 6 => some thresholds6
  | 7 => some thresholds7
  | 8 => some thresholds8
  | 9 => some thresholds9
  | 10 => some finest
  | _ => none

/-- The threshold significands of a scale, by position. -/
structure Table where
  scale : Nat
  entries : Vector Nat (2 ^ scale)
deriving DecidableEq

namespace Table

def entry? (t : Table) (position : Nat) : Option Nat := t.entries[position]?

/-- The entry at the position; past the end there is none and the value is zero. -/
def entry (t : Table) (position : Nat) : Nat := (t.entry? position).getD 0

/-- The table of a scale whose thresholds are part of the library. -/
def builtin? (scale : Int) : Option Table :=
  (builtinThresholds? scale).map fun thresholds =>
    ⟨scale.toNat, Vector.ofFn fun k => thresholds.getD k 0⟩

/-- The table of a scale from estimates of its entries. Fails at the first position that cannot be
decided. -/
def derive (estimates : Estimates) (scale : Int) : Except MappingError Table := do
  ScaleRange.fine.require scale
  let s := scale.toNat
  let entries ← Vector.ofFnM fun k : Fin (2 ^ s) =>
    match seek? s k (estimates.byExp2 s k % 2 ^ 52) with
    | some significand => .ok significand
    | none => .error (.undecided scale k)
  return ⟨s, entries⟩

/-! ## Searching a table -/

/-- The number of entries after the first that the significand reaches. -/
def countReached (t : Table) (significand : Nat) : Nat :=
  (t.entries.toList.drop 1).countP (· ≤ significand)

/-- Halving steps: `2 ^ steps` positions from `position` on are left. -/
def bisect (t : Table) (significand : Nat) : (steps position : Nat) → Nat
  | 0, position => position
  | steps + 1, position =>
    if t.entry (position + 2 ^ steps) ≤ significand then
      bisect t significand steps (position + 2 ^ steps)
    else bisect t significand steps position

/-- Up to this scale counting is faster than halving. -/
def maxCountedScale : Nat := 3

/-- The last position whose entry the significand reaches. The first entry is always reached. -/
def position (t : Table) (significand : Nat) : Nat :=
  if t.scale ≤ maxCountedScale then t.countReached significand
  else t.bisect significand t.scale 0

end Table

end ExponentialHistogram.Threshold
