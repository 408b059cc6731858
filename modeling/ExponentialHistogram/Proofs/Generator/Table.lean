/-
ExponentialHistogram.Proofs.Generator.Table — two methods, one table.

The exact method gives the thresholds because its roots are corrected against
the exact powers, and the workers put each where it belongs
(`exactTable_eq_ok`). The native method gives what walks by 128-bit
comparisons find, and these stop at thresholds only. So the two agree wherever
the native one gives a table at all, and where it does not it says which
position it could not decide (`derive_exact_or_undecided`).
-/
import Mathlib
import ExponentialHistogram.Proofs.Generator.Workers
import ExponentialHistogram.Proofs.Threshold.Derivation
import ExponentialHistogram.Proofs.Threshold.Root
import ExponentialHistogram.Generator.Table

namespace ExponentialHistogram.Generator

open Threshold (IsThreshold GivesUpFirst walk? linearEstimates)

/-! ## The exact method -/

theorem exactEntry_eq_ok {t : Threshold.Table} (hscale : t.scale ≤ 52) (ht : t.IsExact)
    {position : Nat} (hposition : position < 2 ^ t.scale) :
    exactEntry t.scale position = .ok (t.entry position) := by
  rw [exactEntry, (ht.isThreshold position hposition).rootEntry_eq_some hscale hposition]

theorem entries_toArray (t : Threshold.Table) :
    t.entries.toArray = Array.ofFn fun p : Fin (2 ^ t.scale) => t.entry p := by
  refine Array.ext ?_ ?_
  · rw [Vector.size_toArray, Array.size_ofFn]
  · intro p hp _
    rw [Vector.size_toArray] at hp
    rw [Array.getElem_ofFn, t.entry_eq_getElem hp, Vector.getElem_toArray]

/-- **The exact method makes the exact table**, with any number of workers. -/
theorem exactTable_eq_ok {t : Threshold.Table} (hscale : t.scale ≤ 52) (ht : t.IsExact)
    {workers : Nat} (hworkers : 0 < workers) :
    exactTable t.scale workers = .ok t.entries.toArray := by
  have hentry : ∀ p, p < 2 ^ t.scale → exactEntry t.scale p = .ok (t.entry p) :=
    fun p hp => exactEntry_eq_ok hscale ht hp
  have hstart := Run.filling_start (ε := GeneratorError) t.entry (Nat.two_pow_pos t.scale) hworkers
  rw [exactTable, if_neg (by omega), Int.toNat_natCast, entries_toArray]
  exact hstart.result_follow hentry Run.todo_start_le_count_inTurn

/-! ## The native method -/

/-- **A derivation is exact or fails**, whatever the estimates. Either there is a table, every entry
is the threshold significand of its position, and both methods give that table; or a walk gave up,
and the failure names the scale and the first position where one did. -/
theorem derive_exact_or_undecided (estimates : Estimates) {scale : Int}
    (hscale : scale ∈ ScaleRange.fine) :
    (∃ t, Threshold.Table.derive estimates scale = .ok t ∧
      t.entries.toArray.size = 2 ^ scale.toNat ∧
      (∀ k, k < 2 ^ scale.toNat → ∃ significand,
        t.entry? k = some significand ∧ significand < 2 ^ 52 ∧
          IsThreshold (2 ^ 52 + significand) scale.toNat k ∧
          walk? estimates scale.toNat k = some significand) ∧
      ∀ workers workers', 0 < workers' →
        generate estimates scale .native workers = .ok t.entries.toArray ∧
          generate estimates scale .exact workers' = .ok t.entries.toArray) ∨
    ∃ k, GivesUpFirst estimates scale.toNat k ∧
      Threshold.Table.derive estimates scale = .error (.undecided scale k) ∧
      ∀ workers, generate estimates scale .native workers
        = .error (.notDerived scale (.undecided scale k)) := by
  have hbounds : 1 ≤ scale ∧ scale ≤ 20 := hscale
  rcases Threshold.derive_outcome estimates hscale with
    ⟨t, hderive, hsame, hwalk⟩ | ⟨k, hfirst, hderive⟩
  · left
    obtain ⟨-, hcast, hexact⟩ := Threshold.Table.isExact_of_derive hderive
    refine ⟨t, hderive, ?_, ?_, ?_⟩
    · rw [Vector.size_toArray, hsame]
    · intro k hk
      rw [← hsame] at hk ⊢
      refine ⟨t.entry k, ?_, hexact.entry_lt k hk, hexact.isThreshold k hk, hwalk k hk⟩
      rw [Threshold.Table.entry?, Vector.getElem?_eq_getElem hk, t.entry_eq_getElem hk]
    · intro workers workers' hworkers
      refine ⟨?_, ?_⟩
      · rw [generate, nativeTable, hderive]
      · rw [generate, ← hcast]
        exact exactTable_eq_ok (by omega) hexact hworkers
  · right
    refine ⟨k, hfirst, hderive, ?_⟩
    intro workers
    rw [generate, nativeTable, hderive]

/-- At scale 1 a line can pass within three units of both thresholds. A flat one misses the second
by far too much. -/
theorem derive_exact_or_undecided_linear :
    (1 : Int) ∈ ScaleRange.fine ∧
    (∃ t, Threshold.Table.derive (linearEstimates 0x6a09e667f3bd0) 1 = .ok t ∧
      generate (linearEstimates 0x6a09e667f3bd0) 1 .native 1 = .ok t.entries.toArray ∧
      generate (linearEstimates 0x6a09e667f3bd0) 1 .exact 3 = .ok t.entries.toArray) ∧
    ∃ k, GivesUpFirst (linearEstimates 0) 1 k ∧
      Threshold.Table.derive (linearEstimates 0) 1 = .error (.undecided 1 k) := by
  have hscale : (1 : Int) ∈ ScaleRange.fine := by decide
  have harrives : Threshold.Table.derive (linearEstimates 0x6a09e667f3bd0) 1
      = .ok ⟨1, #v[0, 0x6a09e667f3bcd]⟩ := by decide +kernel
  have hfails : Threshold.Table.derive (linearEstimates 0) 1 = .error (.undecided 1 1) := by
    decide +kernel
  refine ⟨hscale, ?_, ?_⟩
  · rcases derive_exact_or_undecided (linearEstimates 0x6a09e667f3bd0) hscale with
      ⟨t, hderive, -, -, hgenerate⟩ | ⟨k, -, hderive, -⟩
    · obtain ⟨hnative, -⟩ := hgenerate 1 1 (by decide)
      exact ⟨t, hderive, hnative, (hgenerate 1 3 (by decide)).2⟩
    · rw [harrives] at hderive
      cases hderive
  · rcases derive_exact_or_undecided (linearEstimates 0) hscale with
      ⟨t, hderive, -, -, -⟩ | ⟨k, hfirst, hderive, -⟩
    · rw [hfails] at hderive
      cases hderive
    · exact ⟨k, hfirst, hderive⟩

end ExponentialHistogram.Generator
