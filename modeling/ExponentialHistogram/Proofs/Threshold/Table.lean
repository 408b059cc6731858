/-
ExponentialHistogram.Proofs.Threshold.Table — every table that is handed out
holds the thresholds of its scale, and searching it is exact.

* The entries of scale 10 are compared with the exact powers, all 1024 of
  them, by evaluation (`checkFrom_finest`). The other built-in tables are
  strides of this one (`toList_builtinThresholds?`), so they are exact because
  thresholds are nested (`isExact_of_builtin?`).
* A derived entry is what a walk found, so it is a threshold whatever the
  estimates were (`isExact_of_derive`).
* Counting and halving both give the last entry that a significand reaches
  (`position_isLastReached`). They need an ascending table only, which the
  tables of thresholds are; for these the answer is the last position that
  the significand attains (`IsExact.isLastAttained`).
-/
import Mathlib
import ExponentialHistogram.Proofs.Threshold.Search
import ExponentialHistogram.Threshold.Table

namespace ExponentialHistogram

theorem ScaleRange.require_eq_ok_iff {r : ScaleRange} {scale : Int} :
    r.require scale = .ok () ↔ scale ∈ r := by
  unfold require
  split <;> simp_all

namespace Threshold

/-! ## The built-in data -/

/-- Whether the entries are the threshold significands from a position on. The two comparisons are
those that tell a threshold. -/
def checkFrom (scale : Nat) : (position : Nat) → List Nat → Bool
  | _, [] => true
  | position, entry :: rest =>
    decide (Attains (2 ^ 52 + entry) scale position)
      && !decide (Attains (2 ^ 52 + entry - 1) scale position)
      && checkFrom scale (position + 1) rest

theorem checkFrom_sound {scale : Nat} : ∀ {position : Nat} {entries : List Nat},
    checkFrom scale position entries = true → ∀ (i : Nat) (h : i < entries.length),
      IsThreshold (2 ^ 52 + entries[i]) scale (position + i)
  | position, entry :: rest, hcheck, i, h => by
      simp only [checkFrom, Bool.and_eq_true, decide_eq_true_eq, Bool.not_eq_true',
        decide_eq_false_iff_not] at hcheck
      obtain ⟨⟨hattains, hpred⟩, hrest⟩ := hcheck
      cases i with
      | zero => exact isThreshold_of_pred hattains hpred
      | succ i =>
        have := checkFrom_sound hrest i (by simpa using h)
        rwa [Nat.add_assoc, Nat.add_comm 1] at this

theorem checkFrom_finest : checkFrom 10 0 finest.toList = true := by
  unfold finest
  simp only [Array.toList_append]
  decide +kernel

theorem length_finest : finest.toList.length = 2 ^ 10 := by
  unfold finest
  simp only [Array.toList_append]
  decide +kernel

theorem isThreshold_finest {position : Nat} (h : position < 2 ^ 10) :
    IsThreshold (2 ^ 52 + finest.getD position 0) 10 position := by
  have hlt : position < finest.toList.length := by rw [length_finest]; exact h
  have := checkFrom_sound checkFrom_finest position hlt
  rw [Nat.zero_add] at this
  have hget : finest.getD position 0 = finest.toList[position] := by
    rw [Array.getD_eq_getD_getElem?, Array.getElem?_eq_getElem (by simpa using hlt)]
    simp
  rwa [hget]

/-! ## Coarser tables -/

/-- The entries at even positions. -/
def everySecond : List Nat → List Nat
  | [] => []
  | [entry] => [entry]
  | entry :: _ :: rest => entry :: everySecond rest

theorem getElem?_everySecond : ∀ (entries : List Nat) (k : Nat),
    (everySecond entries)[k]? = entries[2 * k]?
  | [], _ => rfl
  | [_], 0 => rfl
  | [_], _ + 1 => rfl
  | _ :: _ :: _, 0 => rfl
  | _ :: _ :: rest, k + 1 => by
      rw [everySecond, List.getElem?_cons_succ, getElem?_everySecond rest k, Nat.mul_succ,
        List.getElem?_cons_succ, List.getElem?_cons_succ]

/-- Halving again and again leaves a stride. -/
theorem getElem?_iterate_everySecond (entries : List Nat) (n k : Nat) :
    (everySecond^[n] entries)[k]? = entries[k * 2 ^ n]? := by
  induction n generalizing entries with
  | zero => rw [Function.iterate_zero, id, Nat.pow_zero, Nat.mul_one]
  | succ n ih =>
    rw [Function.iterate_succ_apply, ih, getElem?_everySecond, Nat.pow_succ']
    congr 1
    ring

/-- **Every built-in table is a stride of the finest one.** -/
theorem toList_builtinThresholds? {scale : Int} {thresholds : Array Nat}
    (h : builtinThresholds? scale = some thresholds) :
    scale ∈ ScaleRange.builtin ∧ thresholds.toList.length = 2 ^ scale.toNat ∧
      thresholds.toList = everySecond^[10 - scale.toNat] finest.toList := by
  unfold builtinThresholds? at h
  split at h
  case h_11 => cases h
  all_goals
    obtain rfl := Option.some.inj h
    refine ⟨by decide, ?_⟩
    -- The tables that stand in parts are put together as lists before they are compared.
    simp only [thresholds7, thresholds8, thresholds9, finest, Array.toList_append]
    exact ⟨by decide +kernel, by decide +kernel⟩

/-! ## Exact tables -/

namespace Table

theorem entry_eq_getElem (t : Table) {position : Nat} (h : position < 2 ^ t.scale) :
    t.entry position = t.entries[position] := by
  rw [entry, entry?, Vector.getElem?_eq_getElem h, Option.getD_some]

/-- Every entry is the threshold significand of its position. -/
structure IsExact (t : Table) : Prop where
  entry_lt : ∀ position, position < 2 ^ t.scale → t.entry position < 2 ^ 52
  isThreshold : ∀ position, position < 2 ^ t.scale →
    IsThreshold (2 ^ 52 + t.entry position) t.scale position

/-- In an exact table, reaching an entry is attaining its position. -/
theorem IsExact.entry_le_iff {t : Table} (ht : t.IsExact) {position : Nat}
    (hposition : position < 2 ^ t.scale) (significand : Nat) :
    t.entry position ≤ significand ↔ Attains (2 ^ 52 + significand) t.scale position := by
  rw [(ht.isThreshold position hposition).attains_iff]
  omega

theorem isExact_of_isThreshold {t : Table} (hscale : t.scale ≤ 20)
    (h : ∀ position, position < 2 ^ t.scale →
      IsThreshold (2 ^ 52 + t.entry position) t.scale position) : t.IsExact where
  entry_lt position hposition := by
    have := (h position hposition).lt_two_pow (by omega) hposition
    omega
  isThreshold := h

/-- A built-in table holds the data of its scale and nothing else. -/
theorem toArray_of_builtin? {scale : Int} {t : Table} (h : builtin? scale = some t) :
    builtinThresholds? scale = some t.entries.toArray := by
  obtain ⟨thresholds, hthresholds, rfl⟩ := Option.map_eq_some_iff.mp h
  obtain ⟨-, hlength, -⟩ := toList_builtinThresholds? hthresholds
  rw [Array.length_toList] at hlength
  rw [hthresholds, Option.some.injEq]
  refine Array.ext (by simp [hlength]) fun k hk _ => ?_
  simp [Array.getElem?_eq_getElem hk]

theorem isExact_of_builtin? {scale : Int} {t : Table} (h : builtin? scale = some t) :
    (t.scale : Int) = scale ∧ t.IsExact := by
  obtain ⟨thresholds, hthresholds, rfl⟩ := Option.map_eq_some_iff.mp h
  obtain ⟨hmem, -, hstride⟩ := toList_builtinThresholds? hthresholds
  obtain ⟨hleast, hgreatest⟩ : 1 ≤ scale ∧ scale ≤ 10 := hmem
  refine ⟨by simp only; omega, isExact_of_isThreshold (by simp only; omega) ?_⟩
  intro k hk
  simp only at hk ⊢
  -- A boundary of this scale is one of scale 10, whose entries were checked.
  have hentry : thresholds.getD k 0 = finest.getD (k * 2 ^ (10 - scale.toNat)) 0 := by
    rw [Array.getD_eq_getD_getElem?, Array.getD_eq_getD_getElem?, ← Array.getElem?_toList,
      ← Array.getElem?_toList, hstride, getElem?_iterate_everySecond]
  rw [← IsThreshold.nested_iff (10 - scale.toNat), entry_eq_getElem _ hk, Vector.getElem_ofFn,
    hentry]
  have hsum : scale.toNat + (10 - scale.toNat) = 10 := by omega
  rw [hsum]
  refine isThreshold_finest ?_
  calc k * 2 ^ (10 - scale.toNat) < 2 ^ scale.toNat * 2 ^ (10 - scale.toNat) :=
        Nat.mul_lt_mul_of_pos_right hk (Nat.two_pow_pos _)
    _ = 2 ^ 10 := by rw [← Nat.pow_add, hsum]

/-- A vector made entry by entry holds what each entry's computation gave. -/
theorem getElem_of_ofFnM {ε : Type} : ∀ {n : Nat} {f : Fin n → Except ε Nat} {v : Vector Nat n},
    Vector.ofFnM f = .ok v → ∀ i : Fin n, f i = .ok v[i]
  | n + 1, f, v, h, i => by
      rw [Vector.ofFnM_succ] at h
      cases hinit : Vector.ofFnM (fun i : Fin n => f i.castSucc) with
      | error e => rw [hinit] at h; cases h
      | ok init =>
        cases hlast : f (Fin.last n) with
        | error e => rw [hinit, hlast] at h; cases h
        | ok last =>
          rw [hinit, hlast] at h
          cases h
          induction i using Fin.lastCases with
          | last => simpa using hlast
          | cast i => simpa using getElem_of_ofFnM hinit i

theorem isExact_of_derive {estimates : Estimates} {scale : Int} {t : Table}
    (h : derive estimates scale = .ok t) :
    scale ∈ ScaleRange.fine ∧ (t.scale : Int) = scale ∧ t.IsExact := by
  cases hrequire : ScaleRange.fine.require scale with
  | error e => rw [derive, hrequire] at h; cases h
  | ok u =>
    have hscale : scale ∈ ScaleRange.fine := ScaleRange.require_eq_ok_iff.mp hrequire
    have hbounds : 1 ≤ scale ∧ scale ≤ 20 := hscale
    refine ⟨hscale, ?_⟩
    rw [derive, hrequire] at h
    simp only [bind, Except.bind] at h
    split at h
    · cases h
    · rename_i entries hentries
      cases h
      refine ⟨by simp only; omega, isExact_of_isThreshold (by simp only; omega) ?_⟩
      intro k hk
      have hentry := getElem_of_ofFnM hentries ⟨k, hk⟩
      rw [entry_eq_getElem _ hk]
      simp only at hentry hk ⊢
      split at hentry
      · rename_i significand hseek
        cases hentry
        exact (seek?_sound (by omega) hk (Nat.mod_lt _ (by decide)) hseek).2
      · cases hentry

/-! ## Searching a table -/

/-- Entries never decrease, and the first one is always reached. -/
structure Ascending (t : Table) : Prop where
  first : t.entry 0 = 0
  mono : ∀ j k, j ≤ k → k < 2 ^ t.scale → t.entry j ≤ t.entry k

theorem IsExact.ascending {t : Table} (ht : t.IsExact) : t.Ascending where
  first := by
    have := (ht.isThreshold 0 (Nat.two_pow_pos _)).least (2 ^ 52) (attains_zero_iff.mpr le_rfl)
    omega
  mono j k hjk hk := by
    have hreached := (ht.entry_le_iff hk (t.entry k)).mp le_rfl
    exact (ht.entry_le_iff (by omega) _).mpr (hreached.of_le hjk)

/-- The significand reaches the entries up to this position and none behind it. -/
structure IsLastReached (t : Table) (significand last : Nat) : Prop where
  lt : last < 2 ^ t.scale
  reached : ∀ k, k ≤ last → t.entry k ≤ significand
  beyond : ∀ k, last < k → k < 2 ^ t.scale → significand < t.entry k

theorem IsLastReached.le_iff {t : Table} {significand last : Nat}
    (h : t.IsLastReached significand last) {k : Nat} (hk : k < 2 ^ t.scale) :
    k ≤ last ↔ t.entry k ≤ significand := by
  refine ⟨h.reached k, ?_⟩
  intro hle
  by_contra hlt
  exact absurd hle (by have := h.beyond k (by omega) hk; omega)

/-- Halving: the entries up to the position are reached, those that are `2 ^ steps` further are
not, and each step closes half of the gap. -/
theorem bisect_isLastReached {t : Table} (ht : t.Ascending) {significand : Nat} :
    ∀ {steps position : Nat}, position + 2 ^ steps ≤ 2 ^ t.scale →
      (∀ k, k ≤ position → t.entry k ≤ significand) →
      (∀ k, position + 2 ^ steps ≤ k → k < 2 ^ t.scale → significand < t.entry k) →
      t.IsLastReached significand (t.bisect significand steps position)
  | 0, position, hle, hreached, hbeyond => by
      unfold bisect
      exact ⟨by omega, hreached, fun k hk => hbeyond k (by omega)⟩
  | steps + 1, position, hle, hreached, hbeyond => by
      have hhalf : 2 ^ (steps + 1) = 2 ^ steps + 2 ^ steps := by rw [Nat.pow_succ]; omega
      have hpos := Nat.two_pow_pos steps
      unfold bisect
      split
      · rename_i hmiddle
        refine bisect_isLastReached ht (by omega) ?_ (fun k hk => hbeyond k (by omega))
        intro k hk
        exact (ht.mono k _ hk (by omega)).trans hmiddle
      · rename_i hmiddle
        refine bisect_isLastReached ht (by omega) hreached ?_
        intro k hk hlt
        exact (Nat.lt_of_not_le hmiddle).trans_le (ht.mono _ k hk hlt)

/-- Counting the entries after the first that are reached gives the last position reached. -/
theorem countReached_eq {t : Table} {significand last : Nat}
    (h : t.IsLastReached significand last) : t.countReached significand = last := by
  have hlen : t.entries.toList.length = 2 ^ t.scale := Vector.length_toList
  have hget : ∀ (k : Nat) (hk : k < t.entries.toList.length),
      t.entries.toList[k] = t.entry k := by
    intro k hk
    rw [entry_eq_getElem t (by omega), Vector.getElem_toList]
  have hlast := h.lt
  rw [countReached, ← List.take_append_drop last (t.entries.toList.drop 1), List.countP_append]
  have hfront : ((t.entries.toList.drop 1).take last).countP (· ≤ significand) = last := by
    rw [List.countP_eq_length.mpr]
    · rw [List.length_take, List.length_drop]; omega
    · intro entry hmem
      obtain ⟨k, hk, rfl⟩ := List.getElem_of_mem hmem
      simp only [List.length_take, List.length_drop] at hk
      rw [List.getElem_take, List.getElem_drop, hget _ (by omega), decide_eq_true_iff]
      exact h.reached _ (by omega)
  have hback : ((t.entries.toList.drop 1).drop last).countP (· ≤ significand) = 0 := by
    rw [List.countP_eq_zero]
    intro entry hmem
    obtain ⟨k, hk, rfl⟩ := List.getElem_of_mem hmem
    simp only [List.length_drop] at hk
    rw [List.getElem_drop, List.getElem_drop, hget _ (by omega), decide_eq_true_iff, not_le]
    exact h.beyond _ (by omega) (by omega)
  rw [hfront, hback, Nat.add_zero]

/-- Halving that starts with the whole table. -/
theorem bisect_zero_isLastReached {t : Table} (ht : t.Ascending) (significand : Nat) :
    t.IsLastReached significand (t.bisect significand t.scale 0) := by
  apply bisect_isLastReached ht (by omega)
  · intro k hk
    rw [Nat.le_zero.mp hk, ht.first]
    exact Nat.zero_le _
  · intro k hk hlt
    omega

/-- **Both ways of searching find the last entry reached.** -/
theorem position_isLastReached {t : Table} (ht : t.Ascending) (significand : Nat) :
    t.IsLastReached significand (t.position significand) := by
  have hbisect := bisect_zero_isLastReached ht significand
  unfold position
  split
  · rwa [countReached_eq hbisect]
  · exact hbisect

/-- In an exact table the search gives the last position that the significand attains. -/
theorem IsExact.isLastAttained {t : Table} (ht : t.IsExact) (significand : Nat) :
    IsLastAttained (2 ^ 52 + significand) t.scale (t.position significand) := by
  have hlast := position_isLastReached ht.ascending significand
  refine ⟨hlast.lt, ?_⟩
  intro k hk
  rw [hlast.le_iff hk, ht.entry_le_iff hk]

end Table

end Threshold

end ExponentialHistogram
