/-
ExponentialHistogram.Platform — estimates from this machine's floating-point
functions.

This is the only place where hardware arithmetic is used. Nothing is proved
about it, and nothing has to be: every estimate is checked by those who use
it.
-/
import ExponentialHistogram.Mapping.Logarithm

namespace ExponentialHistogram

def Binary64.toFloat (x : Binary64) : Float := Float.ofBits x.bits

def Binary64.ofFloat (x : Float) : Binary64 := ⟨x.toBits⟩

/-- Estimates by the logarithm and the exponential functions of this machine. -/
def platformEstimates : Estimates where
  position scale significand :=
    let fraction := (Binary64.Normalized.mk 0 significand).ceil.toFloat
    .ofFloat (fraction.log * (Logarithm.scaleFactor scale).toFloat)
  byExp scale position :=
    let logarithm := Float.ofNat position * (Logarithm.inverseScaleFactor scale).toFloat
    (Binary64.ofFloat logarithm.exp).significand
  byExp2 scale position :=
    (Binary64.ofFloat (Float.ofNat position / Float.ofNat (2 ^ scale)).exp2).significand

end ExponentialHistogram
