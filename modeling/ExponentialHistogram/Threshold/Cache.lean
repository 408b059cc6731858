/-
ExponentialHistogram.Threshold.Cache — derived tables are kept.

Deriving a table is slow, so each scale above the built-in ones has a slot.
A slot is filled once: whoever derives a table for a slot that has been
filled in the meantime gets the table that is there.
-/
import ExponentialHistogram.Threshold.Table

namespace ExponentialHistogram.Threshold

/-- The derived tables so far, scale 11 in slot 0 up to scale 20 in slot 9. -/
structure Cache where
  slots : Vector (Option Table) 10

namespace Cache

def empty : Cache := ⟨Vector.replicate 10 none⟩

instance : EmptyCollection Cache := ⟨empty⟩

/-- The slot of a scale, if it has one. -/
def slot? (scale : Int) : Option (Fin 10) :=
  let slot := scale - ScaleRange.builtin.greatest - 1
  if h : 0 ≤ slot ∧ slot < 10 then some ⟨slot.toNat, by omega⟩ else none

def find? (c : Cache) (scale : Int) : Option Table := do
  let slot ← slot? scale
  c.slots[slot]

/-- Puts the table into its slot unless that is taken, and gives the table the slot then holds. -/
def publish (c : Cache) (t : Table) : Table × Cache :=
  match slot? t.scale with
  | none => (t, c)
  | some slot =>
    match c.slots[slot] with
    | some kept => (kept, c)
    | none => (t, ⟨c.slots.set slot (some t)⟩)

/-- The table of a scale: built in, kept, or derived and kept from now on. -/
def request (estimates : Estimates) (scale : Int) (c : Cache) : Except MappingError Table × Cache :=
  match ScaleRange.fine.require scale with
  | .error e => (.error e, c)
  | .ok () =>
    match Table.builtin? scale with
    | some t => (.ok t, c)
    | none =>
      match c.find? scale with
      | some t => (.ok t, c)
      | none =>
        match Table.derive estimates scale with
        | .error e => (.error e, c)
        | .ok t =>
          let (kept, c) := c.publish t
          (.ok kept, c)

end Cache

end ExponentialHistogram.Threshold
