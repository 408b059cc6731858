/-
ExponentialHistogram.Estimates — what is asked of floating-point functions.

Logarithms and powers come from whatever machine the program runs on, and
their last bits differ from one to the next. So they enter as a parameter,
and only as guesses that are checked or corrected with whole numbers.
-/
import ExponentialHistogram.Binary64.Basic

namespace ExponentialHistogram

/-- Guesses made with floating-point functions. -/
structure Estimates where
  /-- Close to `2 ^ scale * log₂ (1 + significand / 2 ^ 52)`. -/
  position : (scale significand : Nat) → Binary64
  /-- Close to the threshold significand at the position, by the exponential function. -/
  byExp : (scale position : Nat) → Nat
  /-- Close to the threshold significand at the position, by powers of two. -/
  byExp2 : (scale position : Nat) → Nat

end ExponentialHistogram
