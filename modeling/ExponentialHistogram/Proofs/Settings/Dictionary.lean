/-
ExponentialHistogram.Proofs.Settings.Dictionary — looking up a name in layers.

What one dictionary over another has for a name depends on what the two have for
it, and on nothing else (`get?_merge`). From this follows what several layers have
(`get?_mergeAll`); where only one of them has the name, it is the value there
(`get?_mergeAll_of_le_one`).
-/
import Mathlib
import ExponentialHistogram.Settings.Dictionary

namespace ExponentialHistogram.Settings

namespace Value

/-- Only tables are joined. -/
theorem overlay_of_left {v : Value} (h : ∀ names, v ≠ .table names) (later : Value) :
    v.overlay later = later := by
  cases v with
  | table names => exact absurd rfl (h names)
  | _ => rfl

theorem overlay_of_right {v : Value} (h : ∀ names, v ≠ .table names) (earlier : Value) :
    earlier.overlay v = v := by
  cases v with
  | table names => exact absurd rfl (h names)
  | _ => cases earlier <;> rfl

end Value

namespace Dictionary

variable {name : List Char}

/-! ## Entries -/

theorem lookup_map_overlay (entries : List (List Char × Value)) (later : Dictionary) :
    (entries.map fun (name, v) => (name, ((later.get? name).map v.overlay).getD v)).lookup name
      = (entries.lookup name).map fun v => ((later.get? name).map v.overlay).getD v := by
  induction entries with
  | nil => rfl
  | cons p entries ih =>
    obtain ⟨key, v⟩ := p
    by_cases h : name = key
    · simp [h]
    · simp [List.lookup_cons, beq_eq_false_iff_ne.mpr h, ih]

/-- The names that another dictionary has are left out. -/
theorem lookup_filter_isNone (entries : List (List Char × Value)) (earlier : Dictionary) :
    (entries.filter fun (name, _) => (earlier.get? name).isNone).lookup name
      = if earlier.get? name = none then entries.lookup name else none := by
  induction entries with
  | nil => simp
  | cons p entries ih =>
    obtain ⟨key, v⟩ := p
    by_cases h : name = key
    · subst h
      cases hget : earlier.get? name <;> simp [hget, ih]
    · cases hget : earlier.get? key <;>
        simp [hget, List.lookup_cons, beq_eq_false_iff_ne.mpr h, ih]

/-! ## Layers -/

/-- **One dictionary over another**, name by name. -/
theorem get?_merge (earlier later : Dictionary) (name : List Char) :
    (earlier.merge later).get? name
      = Option.merge Value.overlay (earlier.get? name) (later.get? name) := by
  rw [merge, get?, List.lookup_append, lookup_map_overlay, lookup_filter_isNone]
  change ((earlier.get? name).map _).or (if _ then later.get? name else none) = _
  cases earlier.get? name <;> cases later.get? name <;> rfl

@[simp] theorem get?_empty (name : List Char) : get? {} name = none := rfl

theorem get?_foldl_merge (layers : List Dictionary) (d : Dictionary) (name : List Char) :
    (layers.foldl merge d).get? name
      = (layers.filterMap (·.get? name)).foldl
          (fun v later => Option.merge Value.overlay v (some later)) (d.get? name) := by
  induction layers generalizing d with
  | nil => rfl
  | cons layer layers ih =>
    rw [List.foldl_cons, ih, get?_merge, List.filterMap_cons]
    cases layer.get? name with
    | none => simp
    | some v => rfl

/-- The one value that the layers have for a name. -/
theorem get?_mergeAll_of_le_one {layers : List Dictionary}
    (h : (layers.filterMap (·.get? name)).length ≤ 1) :
    (mergeAll layers).get? name = (layers.filterMap (·.get? name)).head? := by
  rw [mergeAll, get?_foldl_merge, get?_empty]
  generalize layers.filterMap (·.get? name) = values at h ⊢
  match values, h with
  | [], _ => rfl
  | [v], _ => rfl

theorem get?_nested_singleton (first : List Char) (v : Value) :
    (nested [first] v).get? name = if name = first then some v else none := by
  rw [nested, get?]
  by_cases h : name = first
  · simp [h]
  · simp [h, List.lookup_cons, beq_eq_false_iff_ne.mpr h]

end Dictionary

end ExponentialHistogram.Settings
