/-
ExponentialHistogram.Decimal.Fixed — doubles with one decimal place.

The exact value of the double is rounded, so `6.25` has a tie to decide and
becomes `6.2`; the digits of a shorter spelling are never rounded again.
-/
import ExponentialHistogram.Binary64.Rounding
import ExponentialHistogram.Decimal.Positional

namespace ExponentialHistogram.Binary64

/-- A non-negative number, or a NaN, rounded to tenths, ties to even. -/
def tenths (x : Binary64) : List Char :=
  if x.isNaN then ['N', 'a', 'N']
  else if x.exponentField = specialExponentField then ['i', 'n', 'f']
  else
    let tenths := roundHalfEven (10 * x.units) unitsPerOne
    digitChars (tenths / 10) ++ '.' :: digitChars (tenths % 10)

end ExponentialHistogram.Binary64
