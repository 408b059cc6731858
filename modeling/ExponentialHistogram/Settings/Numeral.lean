/-
ExponentialHistogram.Settings.Numeral — whole numbers as they are typed.

Leading zeros and a plus sign are fine, blanks are not. Numbers have 64 bits
at most.
-/
import ExponentialHistogram.Powers

namespace ExponentialHistogram.Settings

/-- The number that one or more digits spell. -/
def digits? : List Char → Option Nat
  | [] => none
  | cs =>
    if cs.all Char.isDigit then some (cs.foldl (fun n c => 10 * n + (c.toNat - '0'.toNat)) 0)
    else none

/-- A number without sign or with a plus sign, below `2 ^ 64`. -/
def natural? (cs : List Char) : Option Nat := do
  let n ← digits? (match cs with
    | '+' :: rest => rest
    | cs => cs)
  if n < 2 ^ 64 then some n else none

/-- A number with or without sign, in 64 bits. -/
def integer? (cs : List Char) : Option Int := do
  let n : Int ← match cs with
    | '-' :: rest => do pure (-(← digits? rest : Int))
    | '+' :: rest => do pure (← digits? rest : Int)
    | cs => do pure (← digits? cs : Int)
  if -2 ^ 63 ≤ n ∧ n < 2 ^ 63 then some n else none

end ExponentialHistogram.Settings
