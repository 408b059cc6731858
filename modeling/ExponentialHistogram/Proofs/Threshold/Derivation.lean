/-
ExponentialHistogram.Proofs.Threshold.Derivation — what becomes of a
derivation.

The entries of a table are found one after the other, so there are two
outcomes: every walk arrives and the table holds what the walks found, or
there is a first walk that gives up and the derivation names its position
(`derive_outcome`). Nothing is assumed about the estimates.
-/
import Mathlib
import ExponentialHistogram.Proofs.Threshold.Table

namespace ExponentialHistogram.Threshold

/-- The walk to the threshold of a position, from the estimate for it. -/
def walk? (estimates : Estimates) (scale position : Nat) : Option Nat :=
  seek? scale position (estimates.byExp2 scale position % 2 ^ 52)

/-- The walk to this position of the table gives up, those to the positions before it arrive. -/
structure GivesUpFirst (estimates : Estimates) (scale position : Nat) : Prop where
  lt : position < 2 ^ scale
  walk?_eq_none : walk? estimates scale position = none
  isSome_before : ∀ j, j < position → (walk? estimates scale j).isSome = true

/-- A vector made entry by entry fails with the first entry that fails. -/
theorem error_of_ofFnM {ε : Type} : ∀ {n : Nat} {f : Fin n → Except ε Nat} {e : ε},
    Vector.ofFnM f = .error e →
      ∃ i : Fin n, f i = .error e ∧ ∀ j : Fin n, j < i → ∃ a, f j = .ok a
  | 0, f, e, h => by
      rw [Vector.ofFnM_zero] at h
      cases h
  | n + 1, f, e, h => by
      rw [Vector.ofFnM_succ] at h
      cases hinit : Vector.ofFnM (fun i : Fin n => f i.castSucc) with
      | error e' =>
        rw [hinit] at h
        cases h
        obtain ⟨i, hfail, hbefore⟩ := error_of_ofFnM hinit
        refine ⟨i.castSucc, hfail, ?_⟩
        intro j hj
        exact hbefore ⟨j, by omega⟩ hj
      | ok init =>
        cases hlast : f (Fin.last n) with
        | ok last => rw [hinit, hlast] at h; cases h
        | error e' =>
          rw [hinit, hlast] at h
          cases h
          refine ⟨Fin.last n, hlast, ?_⟩
          intro j hj
          exact ⟨_, Table.getElem_of_ofFnM hinit ⟨j, by simpa [Fin.lt_def] using hj⟩⟩

/-- **A derivation arrives everywhere or names the first position where it does not.** -/
theorem derive_outcome (estimates : Estimates) {scale : Int} (hscale : scale ∈ ScaleRange.fine) :
    (∃ t, Table.derive estimates scale = .ok t ∧ t.scale = scale.toNat ∧
      ∀ k, k < 2 ^ t.scale → walk? estimates t.scale k = some (t.entry k)) ∨
    ∃ k, GivesUpFirst estimates scale.toNat k ∧
      Table.derive estimates scale = .error (.undecided scale k) := by
  rw [Table.derive, ScaleRange.require_eq_ok_iff.mpr hscale]
  simp only [bind, Except.bind]
  split
  · rename_i e hentries
    right
    obtain ⟨i, hfail, hbefore⟩ := error_of_ofFnM hentries
    split at hfail
    · cases hfail
    · rename_i hnone
      cases hfail
      refine ⟨i, ⟨i.isLt, hnone, ?_⟩, rfl⟩
      intro j hj
      obtain ⟨a, ha⟩ := hbefore ⟨j, by omega⟩ hj
      split at ha
      · rename_i significand hsome
        rw [walk?, hsome]
        rfl
      · cases ha
  · rename_i entries hentries
    left
    refine ⟨⟨scale.toNat, entries⟩, rfl, rfl, ?_⟩
    intro k hk
    have hentry := Table.getElem_of_ofFnM hentries ⟨k, hk⟩
    rw [Table.entry_eq_getElem _ hk]
    split at hentry
    · rename_i significand hsome
      cases hentry
      exact hsome
    · cases hentry

/-- Estimates on a straight line, which the thresholds are not. -/
def linearEstimates (slope : Nat) : Estimates where
  position _ _ := ⟨0⟩
  byExp _ position := position * slope
  byExp2 _ position := position * slope

end ExponentialHistogram.Threshold
