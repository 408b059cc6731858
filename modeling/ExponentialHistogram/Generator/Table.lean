/-
ExponentialHistogram.Generator.Table — tables of thresholds, made in two ways.

The exact method takes integer roots with as many digits as they need, the
native one walks from estimates with 128-bit comparisons. They have nothing
in common but the result.
-/
import ExponentialHistogram.Generator.Workers
import ExponentialHistogram.Threshold.Root
import ExponentialHistogram.Threshold.Table

namespace ExponentialHistogram.Generator

inductive Method where
  | exact
  | native
deriving DecidableEq, Inhabited, Repr

def Method.name : Method → String
  | exact => "exact"
  | native => "native"

inductive GeneratorError where
  /-- The threshold does not fit in 64 bits. -/
  | outsideOfBinade (position : Nat)
  | negativeScale (scale : Int)
  | notDerived (scale : Int) (cause : MappingError)
deriving DecidableEq, Repr

def GeneratorError.message : GeneratorError → String
  | outsideOfBinade position => s!"Threshold at position {position} lies outside of [1, 2)."
  | negativeScale scale => s!"Invalid scale {scale}.: number too small to fit in target type"
  | notDerived scale cause => s!"Failed to derive table for scale {scale}.: {cause.message}"

/-- The exact threshold significand at the position. -/
def exactEntry (scale position : Nat) : Except GeneratorError Nat :=
  match Threshold.rootEntry? scale position with
  | some significand => .ok significand
  | none => .error (.outsideOfBinade position)

/-- The table by exact roots. The number of workers is positive. -/
def exactTable (scale : Int) (workers : Nat) : Except GeneratorError (Array Nat) :=
  if scale < 0 then .error (.negativeScale scale)
  else
    let run := Run.start (2 ^ scale.toNat) workers
    (run.follow (exactEntry scale.toNat) run.inTurn).result

/-- The table by derivation from estimates. -/
def nativeTable (estimates : Estimates) (scale : Int) : Except GeneratorError (Array Nat) :=
  match Threshold.Table.derive estimates scale with
  | .ok t => .ok t.entries.toArray
  | .error cause => .error (.notDerived scale cause)

/-- The table of a scale by either method. -/
def generate (estimates : Estimates) (scale : Int) (method : Method) (workers : Nat) :
    Except GeneratorError (Array Nat) :=
  match method with
  | .exact => exactTable scale workers
  | .native => nativeTable estimates scale

end ExponentialHistogram.Generator
