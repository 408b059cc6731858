/-
ExponentialHistogram.Powers — which power `a ^ n` is.

Bucket boundaries, thresholds and doubles are all counted in powers of
natural numbers and integers. The power meant is the built-in repeated
multiplication, also in a module that knows other powers of a number, so
that a statement about a definition is about the same term everywhere.
-/

attribute [instance (high), default_instance (high + 1)] instPowNat
