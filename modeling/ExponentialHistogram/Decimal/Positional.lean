/-
ExponentialHistogram.Decimal.Positional — decimal numbers written out with a
point and without an exponent.

Error messages and generated tables show doubles this way: the shortest
digits that read back, zeros filled in up to the point however many there
are, no point in a whole number.
-/
import ExponentialHistogram.Decimal.Shortest

namespace ExponentialHistogram

/-- The decimal digits of `n`, most significant first. -/
def digitChars (n : Nat) : List Char := Nat.toDigits 10 n

namespace Decimal

/-- Written without an exponent: zeros behind the digits, or a point inside or in front of them. -/
def positional (d : Decimal) : List Char :=
  let digits := digitChars d.digits
  if 0 ≤ d.exponent then digits ++ List.replicate d.exponent.toNat '0'
  else
    let places := (-d.exponent).toNat
    let whole := digits.length - places
    if whole = 0 then '0' :: '.' :: (List.replicate (places - digits.length) '0' ++ digits)
    else digits.take whole ++ '.' :: digits.drop whole

end Decimal

namespace Binary64

/-- The text of a double: the shortest positional decimal that reads back, a tie between two going
up. A negative zero keeps its sign, a NaN has none. -/
def positional (x : Binary64) : List Char :=
  if x.isNaN then ['N', 'a', 'N']
  else
    let sign := if x.signField = 0 then [] else ['-']
    if x.exponentField = specialExponentField then sign ++ ['i', 'n', 'f']
    else if x.units = 0 then sign ++ ['0']
    else sign ++ (x.shortest .up).positional

end Binary64

end ExponentialHistogram
