/-
ExponentialHistogram.Threshold.WideFloat — floating-point numbers with 128
bits, squared in either rounding direction.

Squaring a candidate `s` times, once rounding down and once rounding up,
encloses its power between two numbers of fixed size. The product of two
128-bit words is put together from 64-bit halves, so that every step is a
128-bit operation; what is rounded away is kept long enough to know whether
it was zero.
-/
import ExponentialHistogram.Binary64.Basic

namespace ExponentialHistogram.Threshold

/-- The high and the low word of the square of `v`. With `v = high * 2 ^ 64 + low`, the cross
term `2 * high * low * 2 ^ 64` straddles the two words: its lower bits are the cross product
shifted up by 65, the ones this loses are the cross product shifted down by 63. -/
def squareWords (v : BitVec 128) : BitVec 128 × BitVec 128 :=
  let high := v >>> 64
  let low := v &&& 0xFFFFFFFFFFFFFFFF#128
  let cross := high * low
  let lowSquare := low * low
  let lowWord := lowSquare + cross <<< 65
  -- The sum has wrapped around exactly if it is smaller than a summand.
  let carry := if lowWord < lowSquare then 1#128 else 0#128
  (high * high + cross >>> 63 + carry, lowWord)

/-- The number `significand * 2 ^ exponent`. It is normalized when the top bit of the significand
is set. -/
structure WideFloat where
  significand : BitVec 128
  exponent : Int
deriving DecidableEq, Repr

namespace WideFloat

/-- The normalized form of a positive number below `2 ^ 128`. -/
def ofNat (n : Nat) : WideFloat :=
  let shift := 128 - bitLength n
  ⟨BitVec.ofNat 128 n <<< shift, -shift⟩

/-- The next larger number with a normalized significand. -/
def next (w : WideFloat) : WideFloat :=
  if w.significand = BitVec.allOnes 128 then ⟨1#128 <<< 127, w.exponent + 1⟩
  else ⟨w.significand + 1, w.exponent⟩

/-- The leading 128 bits of the square and the bits behind them. The square of a normalized
significand has its top bit in one of the two highest places. -/
def splitSquare (w : WideFloat) : WideFloat × BitVec 128 :=
  let (high, low) := squareWords w.significand
  if high.msb then (⟨high, 2 * w.exponent + 128⟩, low)
  else (⟨high <<< 1 ||| low >>> 127, 2 * w.exponent + 127⟩, low <<< 1)

/-- The square, rounded down. -/
def squareDown (w : WideFloat) : WideFloat := w.splitSquare.1

/-- The square, rounded up. -/
def squareUp (w : WideFloat) : WideFloat :=
  let (kept, dropped) := w.splitSquare
  if dropped = 0 then kept else kept.next

end WideFloat

/-- A lower and an upper bound of one number. -/
structure Enclosure where
  lower : WideFloat
  upper : WideFloat
deriving DecidableEq, Repr

namespace Enclosure

def exact (w : WideFloat) : Enclosure := ⟨w, w⟩

def square (e : Enclosure) : Enclosure := ⟨e.lower.squareDown, e.upper.squareUp⟩

/-- Bounds of the power `2 ^ n` of the number, by `n` squarings. -/
def squareTimes : Nat → Enclosure → Enclosure
  | 0, e => e
  | n + 1, e => squareTimes n e.square

end Enclosure

end ExponentialHistogram.Threshold
