/-
ExponentialHistogram.Proofs.Generator.Entry — an entry by exact roots takes one
correction at most.

Square roots that are rounded down one after the other round down once
(`le_nestedRoot_iff`), so the last root is the threshold or the number before it.
The correction that follows could go up and down as far as it has to: it raises
the candidate while its power is below the goal, and lowers it while the power of
the predecessor is not. After such a root it raises once or not at all
(`runs_correction`), and never gets to where there is no predecessor.

Every position has a threshold, not only those of a table. From `2 ^ 64 + 2 ^ 52`
on there is no entry for it, and that is the only reason for an error
(`rootEntry?_eq`).
-/
import Mathlib
import ExponentialHistogram.Proofs.Loop
import ExponentialHistogram.Proofs.Threshold.Root
import ExponentialHistogram.Generator.Table

namespace ExponentialHistogram

namespace Threshold

variable {m scale position : ℕ}

/-! ## The correction as a loop -/

/-- One turn of the correction: up, or else down, or else the candidate is right. Zero has no
predecessor and no result. -/
def correction (goal power candidate : ℕ) : ℕ ⊕ Option ℕ :=
  if candidate ^ power < goal then .inl (candidate + 1)
  else match candidate with
    | 0 => .inr none
    | below + 1 => if below ^ power < goal then .inr (some (below + 1)) else .inl below

theorem pow_lt_target_iff (h : IsThreshold m scale position) (candidate : ℕ) :
    candidate ^ 2 ^ scale < 2 ^ target scale position ↔ candidate < m := by
  rw [← Nat.not_le, ← Nat.not_le, ← h.attains_iff, Attains]

theorem correction_below (h : IsThreshold m scale position) {candidate : ℕ} (hlt : candidate < m) :
    correction (2 ^ target scale position) (2 ^ scale) candidate = .inl (candidate + 1) := by
  unfold correction
  rw [if_pos ((pow_lt_target_iff h candidate).mpr hlt)]

theorem correction_threshold (h : IsThreshold m scale position) :
    correction (2 ^ target scale position) (2 ^ scale) m = .inr (some m) := by
  have hlow := h.le_threshold
  obtain ⟨below, rfl⟩ := Nat.exists_eq_succ_of_ne_zero (show m ≠ 0 by omega)
  rw [correction, if_neg (mt (pow_lt_target_iff h _).mp (lt_irrefl _))]
  exact if_pos ((pow_lt_target_iff h below).mpr below.lt_succ_self)

/-- The root is the whole part of the exact one. -/
theorem nestedRoot_pow_le (scale goal : ℕ) :
    nestedRoot scale goal ^ 2 ^ scale ≤ goal ∧ goal < (nestedRoot scale goal + 1) ^ 2 ^ scale := by
  refine ⟨le_nestedRoot_iff.mp le_rfl, ?_⟩
  rw [← Nat.not_le, ← le_nestedRoot_iff]
  exact Nat.not_succ_le_self _

/-- **The correction of a root** is at its end after one turn or two. -/
theorem runs_correction (h : IsThreshold m scale position) :
    ∃ states, Runs (correction (2 ^ target scale position) (2 ^ scale))
        (nestedRoot scale (2 ^ target scale position)) states (some m) ∧
      (states = [nestedRoot scale (2 ^ target scale position)] ∨
        states = [nestedRoot scale (2 ^ target scale position),
          nestedRoot scale (2 ^ target scale position) + 1]) := by
  obtain ⟨hlow, hhigh⟩ := nestedRoot_pow_le scale (2 ^ target scale position)
  have hup : m ≤ nestedRoot scale (2 ^ target scale position) + 1 := h.least _ hhigh.le
  have hdown : nestedRoot scale (2 ^ target scale position) ≤ m :=
    (Nat.pow_le_pow_iff_left (Nat.two_pow_pos scale).ne').mp (hlow.trans h.attains)
  generalize nestedRoot scale (2 ^ target scale position) = root at hup hdown ⊢
  have hstop := correction_threshold h
  rcases Nat.eq_or_lt_of_le hdown with rfl | hlt
  · exact ⟨_, .stop hstop, .inl rfl⟩
  · obtain rfl : m = root + 1 := by omega
    exact ⟨_, .go (correction_below h hlt) (.stop hstop), .inr rfl⟩

/-! ## The entry -/

/-- Thirteen tables further on the threshold has 66 bits. -/
theorem two_pow_le_of_far (h : IsThreshold m scale position) (hfar : 13 * 2 ^ scale ≤ position) :
    2 ^ 65 ≤ m := by
  have htarget : 65 * 2 ^ scale ≤ target scale position := by
    rw [target]
    omega
  refine (Nat.pow_le_pow_iff_left (Nat.two_pow_pos scale).ne').mp ?_
  calc (2 ^ 65) ^ 2 ^ scale = 2 ^ (65 * 2 ^ scale) := (Nat.pow_mul ..).symm
    _ ≤ 2 ^ target scale position := Nat.pow_le_pow_right (by decide) htarget
    _ ≤ m ^ 2 ^ scale := h.attains

/-- An entry is missing exactly where it does not fit in 64 bits. -/
theorem rootEntry?_eq (h : IsThreshold m scale position) :
    rootEntry? scale position = if m - 2 ^ 52 < 2 ^ 64 then some (m - 2 ^ 52) else none := by
  unfold rootEntry?
  rw [(isThreshold_leastAttaining scale position).unique h]
  by_cases hfar : 13 * 2 ^ scale ≤ position
  · have hbits := two_pow_le_of_far h hfar
    rw [if_pos hfar, if_neg (by omega)]
  · rw [if_neg hfar]

end Threshold

namespace Generator

open Threshold

/-- **An entry by exact roots.** The roots end at the whole part of the exact root, which is corrected
upwards once at most and never downwards. This gives the threshold, and its significand is the
entry if it fits in 64 bits, as it does in every table; otherwise the error names the position. -/
theorem exactEntry_corrected_once {scale : ℕ} (hscale : scale ≤ 31) (position : ℕ) :
    let goal := 2 ^ (52 * 2 ^ scale + position)
    let root := nestedRoot scale goal
    (root ^ 2 ^ scale ≤ goal ∧ goal < (root + 1) ^ 2 ^ scale) ∧
    ∃ m, IsLeast {n | goal ≤ n ^ 2 ^ scale} m ∧ 2 ^ 52 ≤ m ∧
      (∃ states, Runs (correction goal (2 ^ scale)) root states (some m) ∧
        (states = [root] ∨ states = [root, root + 1])) ∧
      (m - 2 ^ 52 < 2 ^ 64 → exactEntry scale position = .ok (m - 2 ^ 52)) ∧
      (2 ^ 64 ≤ m - 2 ^ 52 → ∃ error, exactEntry scale position = .error error ∧
        error.message
          = "Threshold at position " ++ toString position ++ " lies outside of [1, 2).") ∧
      (position < 2 ^ scale →
        m - 2 ^ 52 < 2 ^ 52 ∧ exactEntry scale position = .ok (m - 2 ^ 52)) := by
  intro goal root
  obtain ⟨m, hthreshold⟩ := exists_isThreshold scale position
  have hentry : m - 2 ^ 52 < 2 ^ 64 → exactEntry scale position = .ok (m - 2 ^ 52) := by
    intro hfits
    rw [exactEntry, rootEntry?_eq hthreshold, if_pos hfits]
  refine ⟨nestedRoot_pow_le scale goal, m, ⟨hthreshold.attains, hthreshold.least⟩,
    hthreshold.le_threshold, runs_correction hthreshold, hentry, ?_, ?_⟩
  · intro hlarge
    refine ⟨.outsideOfBinade position, ?_, rfl⟩
    rw [exactEntry, rootEntry?_eq hthreshold, if_neg (Nat.not_lt.mpr hlarge)]
  · intro hposition
    have hhigh := hthreshold.lt_two_pow (by omega) hposition
    exact ⟨by omega, hentry (by omega)⟩

/-- The second entry of scale 1, whose root is corrected; the last position of that scale with an entry,
whose root is exact; and the first one without. -/
theorem exactEntry_corrected_once_last :
    1 ≤ 31 ∧ exactEntry 1 1 = .ok 0x6a09e667f3bcd ∧ exactEntry 1 24 = .ok (2 ^ 64 - 2 ^ 52) ∧
    ∃ error, exactEntry 1 25 = .error error ∧
      error.message = "Threshold at position 25 lies outside of [1, 2)." := by
  have hscale : 1 ≤ 31 := by decide
  have hleast : ∀ {position n : ℕ}, Attains n 1 position → ¬ Attains (n - 1) 1 position →
      IsLeast {n | 2 ^ (52 * 2 ^ 1 + position) ≤ n ^ 2 ^ 1} n := by
    intro position n hattains hpred
    have hthreshold := isThreshold_of_pred hattains hpred
    exact ⟨hthreshold.attains, hthreshold.least⟩
  obtain ⟨-, m, hm, -, -, hentry, -, -⟩ := exactEntry_corrected_once hscale 1
  obtain rfl : m = 2 ^ 52 + 0x6a09e667f3bcd := hm.unique (hleast (by decide) (by decide))
  obtain ⟨-, m, hm, -, -, hlast, -, -⟩ := exactEntry_corrected_once hscale 24
  obtain rfl : m = 2 ^ 64 := hm.unique (hleast (by decide) (by decide))
  obtain ⟨-, m, hm, -, -, -, herror, -⟩ := exactEntry_corrected_once hscale 25
  obtain rfl : m = 0x16a09e667f3bcc909 := hm.unique (hleast (by decide) (by decide))
  exact ⟨hscale, hentry (by decide), hlast (by decide), herror (by decide)⟩

end Generator

end ExponentialHistogram
