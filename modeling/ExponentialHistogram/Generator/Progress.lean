/-
ExponentialHistogram.Generator.Progress — how far a table is, and how long
the rest will take.

The remaining time is the elapsed time multiplied by the ratio of open to
completed entries. Both factors are doubles, and so is the product; only
then is it rounded to whole nanoseconds.
-/
import ExponentialHistogram.Decimal.Fixed

namespace ExponentialHistogram.Generator

/-- A span of time; less than `10 ^ 9` nanoseconds come on top of the seconds. -/
structure Duration where
  seconds : Nat
  nanoseconds : Nat
deriving DecidableEq, Repr

namespace Duration

/-- The number of seconds as a double. -/
def toBinary64 (d : Duration) : Binary64 :=
  (Binary64.ofNat d.seconds).add ((Binary64.ofNat d.nanoseconds).div (.ofNat (10 ^ 9)))

/-- The span nearest to this many seconds, ties to even, unless there are `2 ^ 64` or more. -/
def ofBinary64? (x : Binary64) : Option Duration :=
  if 2 ^ 64 * Binary64.unitsPerOne ≤ x.units then none
  else
    let nanoseconds := roundHalfEven (x.units * 10 ^ 9) Binary64.unitsPerOne
    some ⟨nanoseconds / 10 ^ 9, nanoseconds % 10 ^ 9⟩

end Duration

/-- What is known of the remaining time. -/
inductive Remaining where
  /-- Nothing, as long as no entry is completed. -/
  | unknown
  | time (d : Duration)
  /-- More seconds than a duration can hold. -/
  | tooLong
deriving DecidableEq, Repr

/-- The time left if the open entries take as long as the completed ones did on average. -/
def remaining (completed total : Nat) (elapsed : Duration) : Remaining :=
  if completed = 0 then .unknown
  else
    let factor := (Binary64.ofNat (total - completed)).div (.ofNat completed)
    match Duration.ofBinary64? (factor.mul elapsed.toBinary64) with
    | some d => .time d
    | none => .tooLong

/-- The share of completed entries in percent, with one decimal place. -/
def percentText (completed total : Nat) : List Char :=
  (((Binary64.ofNat completed).mul (.ofNat 100)).div (.ofNat total)).tenths

/-- What is reported while a table is being made. -/
structure Report where
  message : String
  completed : Nat
  total : Nat
  remaining : Option Duration
deriving DecidableEq, Repr

/-- The report, unless the remaining time cannot be expressed. -/
def report? (completed total : Nat) (elapsed : Duration) : Option Report :=
  let message := s!"Computed {String.ofList (percentText completed total)}% of table entries."
  match remaining completed total elapsed with
  | .unknown => some ⟨message, completed, total, none⟩
  | .time d => some ⟨message, completed, total, some d⟩
  | .tooLong => none

end ExponentialHistogram.Generator
