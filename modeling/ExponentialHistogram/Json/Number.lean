/-
ExponentialHistogram.Json.Number — the value of a number in a JSON text.

A number written without fraction and exponent is an integer as long as it
fits in 64 bits. Any other is a double, and not always the nearest one: the
digits that fit in 64 bits are rounded to a double first, and a power of ten
is then multiplied or divided in, which rounds again. Too large a number has
no value.
-/
import ExponentialHistogram.Binary64.Rounding
import ExponentialHistogram.Decimal.Positional
import ExponentialHistogram.Json.Token

namespace ExponentialHistogram.Json

inductive Number where
  | integer (n : Int)
  | float (x : Binary64)
deriving DecidableEq, Repr

/-! ## Reading -/

def digitValue (c : Char) : Nat := c.toNat - '0'.toNat

/-- The number that the digits spell. -/
def digitsValue (cs : List Char) : Nat := cs.foldl (fun n c => 10 * n + digitValue c) 0

/-- Appends digits to a number until one no longer fits in 64 bits. Gives the digits left over. -/
def absorb (n : Nat) : List Char → Nat × List Char
  | [] => (n, [])
  | c :: rest =>
    let longer := 10 * n + digitValue c
    if longer < 2 ^ 64 then absorb longer rest else (n, c :: rest)

/-- Multiplies or divides a power of ten in; `none` if the result is too large. The largest power
that is a double is `10 ^ 308`, so a very small exponent takes several divisions. -/
def scaleByTen (x : Binary64) (exponent : Int) : Option Binary64 :=
  if exponent.natAbs ≤ 308 then
    let power := Binary64.ofNat (10 ^ exponent.natAbs)
    if 0 ≤ exponent then
      let product := x.mul power
      if product = .infinity then none else some product
    else some (x.div power)
  else if x.units = 0 then some x
  else if 0 ≤ exponent then none
  else scaleByTen (x.div (.ofNat (10 ^ 308))) (exponent + 308)
termination_by exponent.natAbs
decreasing_by omega

/-- The magnitude of a number as a double: whole digits that do not fit count as zeros, fraction
digits that do not fit are dropped. Exponents beyond 31 bits leave nothing but zero or too much. -/
def Numeral.magnitude? (n : Numeral) : Option Binary64 :=
  let (whole, wholeRest) := absorb 0 n.whole
  let (significand, fractionRest) := absorb whole n.fraction
  let exponent : Int := wholeRest.length - (n.fraction.length - fractionRest.length : Nat)
  match n.exponent with
  | none => scaleByTen (.ofNat significand) exponent
  | some (negative, digits) =>
    let written := digitsValue digits
    if 2 ^ 31 ≤ written then
      if significand ≠ 0 ∧ !negative then none else some (.ofNat 0)
    else scaleByTen (.ofNat significand) (if negative then exponent - written else exponent + written)

/-- The number with its sign bit set. -/
def negated (x : Binary64) : Binary64 := .ofBitsNat (x.bits.toNat + 2 ^ 63)

/-- The value of the number. A zero with a minus sign is a double, so that the sign is kept. -/
def Numeral.value? (n : Numeral) : Option Number := do
  let whole := digitsValue n.whole
  let isWhole := n.fraction.isEmpty && n.exponent.isNone
  if isWhole && !n.negative && whole < 2 ^ 64 then return .integer whole
  if isWhole && n.negative && 0 < whole && whole ≤ 2 ^ 63 then return .integer (-whole)
  let magnitude ← n.magnitude?
  return .float (if n.negative then negated magnitude else magnitude)

/-! ## Writing -/

/-- A double the way JSON spells it: the shortest digits that read back, a tie to the even one; from
`10 ^ -5` up to `10 ^ 16` with a point and a digit behind it, otherwise with a signed exponent. -/
def floatText (x : Binary64) : List Char :=
  let sign := if x.signField = 0 then [] else ['-']
  if x.units = 0 then sign ++ ['0', '.', '0']
  else
    let shortest := x.shortest .toEven
    let digits := digitChars shortest.digits
    let point := shortest.exponent + digits.length
    if -5 < point ∧ point ≤ 16 then
      sign ++ shortest.positional ++ if 0 ≤ shortest.exponent then ['.', '0'] else []
    else
      let fraction := if digits.length = 1 then [] else '.' :: digits.drop 1
      let exponentSign := if 0 < point then '+' else '-'
      sign ++ digits.take 1 ++ fraction ++ 'e' :: exponentSign :: digitChars (point - 1).natAbs

end ExponentialHistogram.Json
