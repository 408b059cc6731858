/-
ExponentialHistogram.Proofs.Threshold.CheckedSearch — a walk leaves no word.

The walk from an estimate to a threshold, written once more with operations
that fail: a candidate has 64 bits, it is never stepped down from zero, and
what is compared is never zero. Both directions share 64 steps, so a walk that
starts from a significand with its leading one stays near it, whatever the
estimate was and wherever the threshold is (`seek?_eq`). How many steps a climb
has left says how far it has come (`climb?_add`), which is what the descent
behind it needs.
-/
import Mathlib
import ExponentialHistogram.Proofs.Threshold.Checked

namespace ExponentialHistogram.Threshold

variable {scale position candidate steps : Nat}

/-- Every step up is one of those that are counted. -/
theorem climb?_add {found left : Nat}
    (h : climb? scale position steps candidate = some (found, left)) :
    found + left = candidate + steps ∧ candidate ≤ found := by
  induction steps generalizing candidate with
  | zero =>
    rw [climb?] at h
    split at h
    · cases h
    · cases h
      exact ⟨rfl, le_rfl⟩
    · cases h
  | succ steps ih =>
    rw [climb?] at h
    split at h
    · cases h
    · cases h
      exact ⟨rfl, le_rfl⟩
    · split at h
      · have := ih h
        omega
      · cases h

namespace Checked

/-- An unsigned number of 64 bits. -/
def nat64? (n : Nat) : Option Nat := if n < 2 ^ 64 then some n else none

/-- The number before. -/
def pred? (n : Nat) : Option Nat := if 0 < n then some (n - 1) else none

/-- A comparison, which is not meant for zero. -/
def verdict? (candidate scale position : Nat) : Option (Option Bool) := do
  guard (0 < candidate)
  attains? candidate scale position

/-- Going up, as long as the next candidate fits. -/
def climb? (scale position : Nat) : (steps candidate : Nat) → Option (Option (Nat × Nat))
  | steps, candidate => do
    let some reached ← verdict? candidate scale position | return none
    if reached then return some (candidate, steps)
    let next ← nat64? (candidate + 1)
    match steps with
    | 0 => return none
    | steps + 1 => climb? scale position steps next

/-- Going down, as long as there is a candidate before. -/
def descend? (scale position : Nat) : (steps candidate : Nat) → Option (Option Nat)
  | steps, candidate => do
    let below ← pred? candidate
    let some reached ← verdict? below scale position | return none
    if !reached then return some candidate
    match steps with
    | 0 => return none
    | steps + 1 => descend? scale position steps below

/-- The significand that a walk finds, if it finds one, unless something does not fit on the way. -/
def seek? (scale position estimate : Nat) : Option (Option Nat) := do
  let some (candidate, steps) ← climb? scale position maxSteps (estimate ||| 2 ^ 52) | return none
  let some threshold ← descend? scale position steps candidate | return none
  return some (threshold % 2 ^ 52)

section

variable (hscale : scale ≤ 20) (hposition : position < 2 ^ 62)
include hscale hposition

theorem verdict?_eq (hpos : 0 < candidate) (hlt : candidate < 2 ^ 64) :
    verdict? candidate scale position = some (Threshold.attains? candidate scale position) := by
  rw [verdict?, guard, if_pos hpos, attains?_eq_some hpos hlt hscale hposition]
  rfl

theorem climb?_eq (hpos : 0 < candidate) (hlt : candidate + steps + 1 < 2 ^ 64) :
    climb? scale position steps candidate
      = some (Threshold.climb? scale position steps candidate) := by
  induction steps generalizing candidate with
  | zero =>
    have hnext : nat64? (candidate + 1) = some (candidate + 1) := if_pos (by omega)
    rw [climb?, Threshold.climb?,
      bind_eq_of_eq_some (verdict?_eq hscale hposition hpos (by omega))]
    rcases Threshold.attains? candidate scale position with _ | _ | _
    · rfl
    · exact bind_eq_of_eq_some hnext _
    · rfl
  | succ steps ih =>
    have hnext : nat64? (candidate + 1) = some (candidate + 1) := if_pos (by omega)
    rw [climb?, Threshold.climb?,
      bind_eq_of_eq_some (verdict?_eq hscale hposition hpos (by omega))]
    rcases Threshold.attains? candidate scale position with _ | _ | _
    · rfl
    · simp only [if_pos (show candidate + 1 < 2 ^ 64 by omega)]
      exact (bind_eq_of_eq_some hnext _).trans (ih (Nat.succ_pos _) (by omega))
    · rfl

theorem descend?_eq (hpos : steps + 1 < candidate) (hlt : candidate < 2 ^ 64) :
    descend? scale position steps candidate
      = some (Threshold.descend? scale position steps candidate) := by
  induction steps generalizing candidate with
  | zero =>
    have hbelow : pred? candidate = some (candidate - 1) := if_pos (by omega)
    rw [descend?, Threshold.descend?, bind_eq_of_eq_some hbelow,
      bind_eq_of_eq_some (verdict?_eq hscale hposition (by omega) (by omega))]
    rcases Threshold.attains? (candidate - 1) scale position with _ | _ | _ <;> rfl
  | succ steps ih =>
    have hbelow : pred? candidate = some (candidate - 1) := if_pos (by omega)
    rw [descend?, Threshold.descend?, bind_eq_of_eq_some hbelow,
      bind_eq_of_eq_some (verdict?_eq hscale hposition (by omega) (by omega))]
    rcases Threshold.attains? (candidate - 1) scale position with _ | _ | _
    · rfl
    · rfl
    · exact ih (by omega) (by omega)

/-- **A walk leaves no word**, from whatever significand it starts. -/
theorem seek?_eq {estimate : Nat} (hestimate : estimate < 2 ^ 52) :
    seek? scale position estimate = some (Threshold.seek? scale position estimate) := by
  have hstart := or_implicitBit hestimate
  rw [seek?, Threshold.seek?,
    bind_eq_of_eq_some (climb?_eq hscale hposition (by omega) (by rw [hstart, maxSteps]; omega))]
  cases hclimb : Threshold.climb? scale position maxSteps (estimate ||| 2 ^ 52) with
  | none => rfl
  | some stop =>
    obtain ⟨found, left⟩ := stop
    obtain ⟨hsum, hle⟩ := climb?_add hclimb
    rw [hstart] at hsum hle
    rw [maxSteps] at hsum
    simp only [Option.bind_eq_bind, Option.bind_some]
    rw [descend?_eq hscale hposition (by omega) (by omega)]
    cases Threshold.descend? scale position left found <;> rfl

end

end Checked

end ExponentialHistogram.Threshold
