/-
ExponentialHistogram.Decimal.Shortest — the fewest decimal digits that read
back as a given double.

A double stands for every real number nearer to it than to its neighbours.
The shortest decimal in that interval is found by trying one digit, then
two, and so on: if any decimal with `n` digits lies in the interval, one of
the two that enclose the double itself does. Of two that do, the nearer one
is taken; an exact tie is left to the caller, since formats differ in it.
All comparisons are exact, in quarters of `2 ^ -1074`, so that the ends of
the interval are whole numbers.
-/
import ExponentialHistogram.Binary64.Basic

namespace ExponentialHistogram

/-- The decimal number `digits * 10 ^ exponent`. -/
structure Decimal where
  digits : Nat
  exponent : Int
deriving DecidableEq, Repr

/-- The number of decimal digits of `n`; zero has none. -/
def decimalLength (n : Nat) : Nat := if n = 0 then 0 else decimalLength (n / 10) + 1

/-- Which of two equally near decimals is taken. -/
inductive TieRule where
  | up
  | toEven
deriving DecidableEq, Repr

namespace Binary64

/-- The numbers that round to a double, in quarters of `2 ^ -1074`. The ends belong to it when
`closed` holds. -/
structure RoundingInterval where
  low : Nat
  centre : Nat
  high : Nat
  closed : Bool
deriving DecidableEq, Repr

/-- A double reaches halfway to its neighbours. The lower neighbour of a power of two is only half
as far away, except at the bottom of the range. Halfway points go to the even significand. -/
def roundingInterval (x : Binary64) : RoundingInterval :=
  let gap := 2 ^ (x.exponentField - 1)
  let below := if x.significand = 0 ∧ 1 < x.exponentField then gap else 2 * gap
  { low := 4 * x.units - below
    centre := 4 * x.units
    high := 4 * x.units + 2 * gap
    closed := x.significand % 2 == 0 }

def RoundingInterval.holds (i : RoundingInterval) (num den : Nat) : Bool :=
  if i.closed then i.low * den ≤ num && num ≤ i.high * den
  else i.low * den < num && num < i.high * den

/-- The exponent of the leading decimal digit of a positive finite number. -/
def decimalExponent (x : Binary64) : Int :=
  if unitsPerOne ≤ x.units then (decimalLength (x.units / unitsPerOne) : Int) - 1
  else -(decimalLength ((unitsPerOne - 1) / x.units) : Int)

/-- The best decimal with `count` digits that reads back as the positive finite number `x`, if
there is one. The number lies between `below * 10 ^ place` and `(below + 1) * 10 ^ place`. -/
def decimalOfLength? (tie : TieRule) (x : Binary64) (count : Nat) : Option Decimal :=
  let place := x.decimalExponent - (count - 1 : Int)
  let interval := x.roundingInterval
  -- One step of the decimal grid is `step / scale` quarter units.
  let scale := 10 ^ (-place).toNat
  let step := 4 * unitsPerOne * 10 ^ place.toNat
  let below := interval.centre * scale / step
  let rest := interval.centre * scale % step
  let lower := interval.holds (below * step) scale
  let upper := interval.holds ((below + 1) * step) scale
  let above : Decimal := if below + 1 = 10 ^ count then ⟨1, place + count⟩ else ⟨below + 1, place⟩
  match lower, upper with
  | false, false => none
  | true, false => some ⟨below, place⟩
  | false, true => some above
  | true, true =>
    if 2 * rest < step then some ⟨below, place⟩
    else if step < 2 * rest then some above
    else match tie with
      | .up => some above
      | .toEven => if below % 2 = 0 then some ⟨below, place⟩ else some above

/-- The shortest decimal that reads back as the positive finite number `x`. Seventeen digits are
always enough. -/
def shortest (tie : TieRule) (x : Binary64) : Decimal :=
  ((List.range 17).findSome? fun n => x.decimalOfLength? tie (n + 1)).getD ⟨0, 0⟩

end Binary64

end ExponentialHistogram
