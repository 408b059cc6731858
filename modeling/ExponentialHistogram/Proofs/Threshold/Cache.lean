/-
ExponentialHistogram.Proofs.Threshold.Cache — the cache never holds a wrong
table.

`Sound` says what a slot may hold: nothing, or the exact table of its own
scale. The empty cache is sound, and one lemma for each way a cache changes
(`Sound.publish`, `Sound.request`) carries that to every cache that a history
of requests leads to (`Reachable.sound`). So whatever happened before, a table
that is handed out is the exact one of the scale that was asked for.
-/
import Mathlib
import ExponentialHistogram.Proofs.Threshold.Table
import ExponentialHistogram.Threshold.Cache

namespace ExponentialHistogram.Threshold.Cache

variable {estimates : Estimates} {scale : Int} {c : Cache} {t : Table}

/-- Every slot is empty or holds the exact table of its own scale. -/
def Sound (c : Cache) : Prop :=
  ∀ (slot : Fin 10) (t : Table), c.slots.get slot = some t → t.scale = slot.val + 11 ∧ t.IsExact

/-- The caches that a history of requests leads to. A derivation may end after others have used
the cache; its table is published into the cache as it is then. -/
inductive Reachable (estimates : Estimates) : Cache → Prop where
  | empty : Reachable estimates ∅
  | request {c : Cache} (scale : Int) :
      Reachable estimates c → Reachable estimates (c.request estimates scale).2
  | publish {c : Cache} {scale : Int} {t : Table} :
      Reachable estimates c → Table.derive estimates scale = .ok t →
        Reachable estimates (c.publish t).2

theorem slot?_eq_some {slot : Fin 10} (h : slot? scale = some slot) :
    scale = slot.val + 11 := by
  have hgreatest : ScaleRange.builtin.greatest = 10 := rfl
  rw [slot?] at h
  split at h
  · cases h
    simp only
    omega
  · cases h

theorem sound_empty : Sound ∅ := by
  intro slot t h
  have : (∅ : Cache).slots.get slot = none := Vector.getElem_replicate _
  rw [this] at h
  cases h

/-- Publishing gives the table that is in the slot afterwards, and it is exact. -/
theorem Sound.publish (hc : c.Sound) (ht : t.IsExact) :
    (c.publish t).1.scale = t.scale ∧ (c.publish t).1.IsExact ∧ (c.publish t).2.Sound := by
  unfold Cache.publish
  split
  · exact ⟨rfl, ht, hc⟩
  · rename_i slot hslot
    have hscale := slot?_eq_some hslot
    split
    · rename_i kept hkept
      obtain ⟨hkscale, hkexact⟩ := hc slot kept hkept
      exact ⟨by simp only; omega, hkexact, hc⟩
    · refine ⟨rfl, ht, ?_⟩
      intro other u hu
      rw [Vector.get_eq_getElem] at hu
      by_cases heq : slot = other
      · subst heq
        rw [Vector.getElem_set_self] at hu
        cases hu
        exact ⟨by omega, ht⟩
      · have hne : slot.val ≠ other.val := fun h => heq (Fin.ext h)
        rw [Vector.getElem_set_ne _ _ hne] at hu
        exact hc other u hu

/-- What is kept for a scale is the exact table of that scale. -/
theorem Sound.find? (hc : c.Sound) (h : c.find? scale = some t) :
    (t.scale : Int) = scale ∧ t.IsExact := by
  unfold Cache.find? at h
  obtain ⟨slot, hslot, h⟩ := Option.bind_eq_some_iff.mp h
  obtain ⟨hscale, hexact⟩ := hc slot t h
  have := slot?_eq_some hslot
  exact ⟨by omega, hexact⟩

/-- **A request on a sound cache leaves it sound, and a table that it gives is the exact one of the
scale.** -/
theorem Sound.request (hc : c.Sound) (estimates : Estimates) (scale : Int) :
    (c.request estimates scale).2.Sound ∧ ∀ t, (c.request estimates scale).1 = .ok t →
      scale ∈ ScaleRange.fine ∧ (t.scale : Int) = scale ∧ t.IsExact := by
  unfold Cache.request
  split
  · exact ⟨hc, fun t h => by cases h⟩
  · rename_i hrequire
    have hmem : scale ∈ ScaleRange.fine := ScaleRange.require_eq_ok_iff.mp hrequire
    split
    · rename_i built hbuilt
      exact ⟨hc, fun t h => by cases h; exact ⟨hmem, Table.isExact_of_builtin? hbuilt⟩⟩
    · split
      · rename_i kept hkept
        exact ⟨hc, fun t h => by cases h; exact ⟨hmem, hc.find? hkept⟩⟩
      · split
        · exact ⟨hc, fun t h => by cases h⟩
        · rename_i derived hderived
          obtain ⟨-, hscale, hexact⟩ := Table.isExact_of_derive hderived
          obtain ⟨hpscale, hpexact, hsound⟩ := hc.publish hexact
          refine ⟨hsound, ?_⟩
          intro t h
          obtain rfl : (c.publish derived).1 = t := Except.ok.inj h
          exact ⟨hmem, by omega, hpexact⟩

/-- **Every cache that requests lead to is sound.** -/
theorem Reachable.sound (h : c.Reachable estimates) : c.Sound := by
  induction h with
  | empty => exact sound_empty
  | request scale _ ih => exact (ih.request estimates scale).1
  | publish _ hderived ih => exact (ih.publish (Table.isExact_of_derive hderived).2.2).2.2

end ExponentialHistogram.Threshold.Cache
