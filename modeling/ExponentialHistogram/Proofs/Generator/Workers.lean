/-
ExponentialHistogram.Proofs.Generator.Workers — whatever the order of the
steps, workers that have taken all their steps have filled the table.

`Step` lists what one step can do, once. From it come the two facts that are
carried through a schedule:

* what the workers have got through of their slices stands in the table, and
  no worker has failed (`Filling.follow`);
* a worker needs two steps for each position, one to write and one to count,
  and loses none to the steps of others (`todo_follow`).

So a schedule that names each worker often enough fills the table
(`Filling.result_follow`); taking the workers in turn is such a schedule
(`todo_start_le_count_inTurn`).
-/
import Mathlib
import ExponentialHistogram.Generator.Workers

namespace ExponentialHistogram.Generator

/-- How many steps a worker that does not fail has yet to take. -/
def Worker.todo {ε : Type} (w : Worker ε) : Nat :=
  2 * (w.stop - w.next) + if w.owesCount then 1 else 0

namespace Run

variable {ε : Type} {entry : Nat → Except ε Nat} {run : Run ε}

/-! ## One step -/

/-- What a step of a worker can do. -/
inductive Step (entry : Nat → Except ε Nat) (run : Run ε) (worker : Nat) : Run ε → Prop where
  | absent : run.workers[worker]? = none → Step entry run worker run
  | count {w : Worker ε} : run.workers[worker]? = some w → w.owesCount = true →
      Step entry run worker
        { run with
          completed := run.completed + 1
          workers := run.workers.setIfInBounds worker { w with owesCount := false } }
  | rest {w : Worker ε} : run.workers[worker]? = some w → w.owesCount = false →
      (w.failure.isSome = true ∨ w.stop ≤ w.next) → Step entry run worker run
  | write {w : Worker ε} {significand : Nat} : run.workers[worker]? = some w →
      w.owesCount = false → w.failure = none → w.next < w.stop →
      entry w.next = .ok significand →
      Step entry run worker
        { run with
          entries := run.entries.setIfInBounds w.next significand
          workers :=
            run.workers.setIfInBounds worker { w with next := w.next + 1, owesCount := true } }
  | fail {w : Worker ε} {e : ε} : run.workers[worker]? = some w → w.owesCount = false →
      w.failure = none → w.next < w.stop → entry w.next = .error e →
      Step entry run worker
        { run with workers := run.workers.setIfInBounds worker { w with failure := some e } }

theorem step_spec (entry : Nat → Except ε Nat) (run : Run ε) (worker : Nat) :
    Step entry run worker (run.step entry worker) := by
  unfold step
  split
  · rename_i habsent
    exact .absent habsent
  · rename_i w hw
    split
    · rename_i howes
      exact .count hw howes
    · rename_i howes
      rw [Bool.not_eq_true] at howes
      split
      · rename_i hrest
        rw [Bool.or_eq_true, decide_eq_true_iff] at hrest
        exact .rest hw howes hrest
      · rename_i hgo
        rw [Bool.or_eq_true, decide_eq_true_iff, not_or, Bool.not_eq_true,
          Option.isSome_eq_false_iff, Option.isNone_iff_eq_none, Nat.not_le] at hgo
        split
        · rename_i significand hentry
          exact .write hw howes hgo.1 hgo.2 hentry
        · rename_i e hentry
          exact .fail hw howes hgo.1 hgo.2 hentry

/-! ## The table fills up -/

/-- No worker has failed, the slices of the workers cover the table, and what a worker has got
through of its slice stands in the table. -/
structure Filling (value : Nat → Nat) (total length : Nat) (run : Run ε) : Prop where
  size_entries : run.entries.size = total
  noFailure : ∀ (i : Nat) (w : Worker ε), run.workers[i]? = some w → w.failure = none
  stop_le : ∀ (i : Nat) (w : Worker ε), run.workers[i]? = some w → w.stop ≤ total
  covers : ∀ p, p < total →
    ∃ (i : Nat) (w : Worker ε), run.workers[i]? = some w ∧ i * length ≤ p ∧ p < w.stop
  written : ∀ (i : Nat) (w : Worker ε), run.workers[i]? = some w →
    ∀ p, i * length ≤ p → p < w.next → run.entries[p]? = some (value p)

theorem getElem?_update {workers : Array (Worker ε)} {i : Nat} {w : Worker ε}
    (hw : workers[i]? = some w) (w' : Worker ε) (j : Nat) :
    (workers.setIfInBounds i w')[j]? = if i = j then some w' else workers[j]? := by
  have hlt : i < workers.size := (Array.getElem?_eq_some_iff.mp hw).1
  rw [Array.getElem?_setIfInBounds]
  simp only [hlt, if_true]

variable {value : Nat → Nat} {total length : Nat}

/-- A worker that keeps to its slice may move on over what is written. -/
theorem Filling.update (h : run.Filling value total length) {i : Nat} {w : Worker ε}
    (hw : run.workers[i]? = some w) (w' : Worker ε) (hfailure : w'.failure = none)
    (hstop : w'.stop = w.stop) {entries : Array Nat} (hsize : entries.size = total)
    (hkeep : ∀ p, run.entries[p]? = some (value p) → entries[p]? = some (value p))
    (hwritten : ∀ p, i * length ≤ p → p < w'.next → entries[p]? = some (value p))
    (completed : Nat) :
    Filling value total length ⟨entries, completed, run.workers.setIfInBounds i w'⟩ where
  size_entries := hsize
  noFailure j u hu := by
    rw [getElem?_update hw] at hu
    split at hu
    · cases hu; exact hfailure
    · exact h.noFailure j u hu
  stop_le j u hu := by
    rw [getElem?_update hw] at hu
    split at hu
    · cases hu; rw [hstop]; exact h.stop_le i w hw
    · exact h.stop_le j u hu
  covers p hp := by
    obtain ⟨j, u, hu, hfirst, hlast⟩ := h.covers p hp
    by_cases heq : i = j
    · subst heq
      rw [hw] at hu
      cases hu
      exact ⟨i, w', by rw [getElem?_update hw, if_pos rfl], hfirst, by rwa [hstop]⟩
    · exact ⟨j, u, by rwa [getElem?_update hw, if_neg heq], hfirst, hlast⟩
  written j u hu := by
    rw [getElem?_update hw] at hu
    split at hu
    · rename_i heq
      subst heq
      cases hu
      exact hwritten
    · exact fun p hfirst hlast => hkeep p (h.written j u hu p hfirst hlast)

section

variable (hentry : ∀ p, p < total → entry p = .ok (value p))
include hentry

/-- One step of any worker. -/
theorem Filling.step (h : run.Filling value total length) {worker : Nat} {after : Run ε}
    (hstep : Step entry run worker after) : after.Filling value total length := by
  cases hstep with
  | absent _ => exact h
  | @count w hw _ =>
    have hfailure := h.noFailure worker w hw
    have hwritten := h.written worker w hw
    exact h.update hw { w with owesCount := false } hfailure rfl h.size_entries
      (fun p hp => hp) hwritten _
  | rest _ _ _ => exact h
  | @write w significand hw _ hfailure hlt hok =>
    have hbound : w.next < total := hlt.trans_le (h.stop_le _ _ hw)
    obtain rfl : value w.next = significand := by
      rw [hentry _ hbound] at hok
      exact Except.ok.inj hok
    have hset : ∀ p, p = w.next ∨ run.entries[p]? = some (value p) →
        (run.entries.setIfInBounds w.next (value w.next))[p]? = some (value p) := by
      intro p hp
      rw [Array.getElem?_setIfInBounds]
      split
      · rename_i heq
        rw [if_pos (by rwa [h.size_entries]), heq]
      · rename_i hne
        exact hp.resolve_left (Ne.symm hne)
    refine h.update hw { w with next := w.next + 1, owesCount := true } hfailure rfl
      (by rw [Array.size_setIfInBounds, h.size_entries]) (fun p hp => hset p (Or.inr hp)) ?_ _
    intro p hfirst hlast
    rcases Nat.lt_succ_iff_lt_or_eq.mp hlast with hbefore | heq
    · exact hset p (Or.inr (h.written _ _ hw p hfirst hbefore))
    · exact hset p (Or.inl heq)
  | @fail w e hw _ _ hlt herror =>
    rw [hentry _ (hlt.trans_le (h.stop_le _ _ hw))] at herror
    cases herror

/-- **A whole schedule**, in any order. -/
theorem Filling.follow (h : run.Filling value total length) (schedule : List Nat) :
    (run.follow entry schedule).Filling value total length := by
  induction schedule generalizing run with
  | nil => exact h
  | cons worker schedule ih => exact ih (h.step hentry (step_spec entry run worker))

end

/-! ## How many steps are left -/

/-- How many steps are left for the worker with this number. -/
def todo (run : Run ε) (worker : Nat) : Nat := (run.workers[worker]?).elim 0 Worker.todo

theorem todo_of_eq_some {i : Nat} {w : Worker ε} (hw : run.workers[i]? = some w) :
    run.todo i = w.todo := by
  rw [todo, hw, Option.elim_some]

theorem todo_update {i : Nat} {w : Worker ε} (hw : run.workers[i]? = some w) (w' : Worker ε)
    (entries : Array Nat) (completed j : Nat) :
    Run.todo ⟨entries, completed, run.workers.setIfInBounds i w'⟩ j
      = if i = j then w'.todo else run.todo j := by
  rw [todo, getElem?_update hw]
  split
  · rfl
  · rfl

section

variable (hentry : ∀ p, p < total → entry p = .ok (value p))
include hentry

/-- A step is one less for the worker that takes it and changes nothing for the others. -/
theorem todo_step (h : run.Filling value total length) {worker : Nat} {after : Run ε}
    (hstep : Step entry run worker after) (j : Nat) :
    after.todo j = run.todo j - if worker = j then 1 else 0 := by
  cases hstep with
  | absent habsent =>
    split
    · rename_i heq
      rw [← heq, todo, habsent, Option.elim_none]
    · rfl
  | @count w hw howes =>
    rw [todo_update hw]
    split
    · rename_i heq
      rw [← heq, todo_of_eq_some hw]
      simp [Worker.todo, howes]
    · rfl
  | @rest w hw howes hrest =>
    split
    · rename_i heq
      have hdone : w.stop ≤ w.next := by
        rw [h.noFailure _ _ hw] at hrest
        exact hrest.resolve_left (by simp)
      rw [← heq, todo_of_eq_some hw]
      simp [Worker.todo, howes, hdone]
    · rfl
  | @write w significand hw howes _ hlt _ =>
    rw [todo_update hw]
    split
    · rename_i heq
      rw [← heq, todo_of_eq_some hw]
      simp only [Worker.todo, howes, if_true, Bool.false_eq_true, if_false]
      omega
    · rfl
  | @fail w e hw _ _ hlt herror =>
    rw [hentry _ (hlt.trans_le (h.stop_le _ _ hw))] at herror
    cases herror

/-- **In a schedule no step is lost**, wherever it stands. -/
theorem todo_follow (h : run.Filling value total length) (schedule : List Nat) (j : Nat) :
    (run.follow entry schedule).todo j = run.todo j - schedule.count j := by
  induction schedule generalizing run with
  | nil => rfl
  | cons worker schedule ih =>
    have hstep := step_spec entry run worker
    have hrest := ih (h.step hentry hstep)
    rw [todo_step hentry h hstep] at hrest
    rw [List.count_cons]
    simp only [beq_iff_eq]
    exact hrest.trans (by omega)

end

/-! ## The finished table -/

theorem Filling.findSome?_failure (h : run.Filling value total length) :
    run.workers.toList.findSome? (·.failure) = none := by
  rw [List.findSome?_eq_none_iff]
  intro w hw
  obtain ⟨i, hi⟩ := List.getElem?_of_mem hw
  exact h.noFailure i w (by rwa [Array.getElem?_toList] at hi)

/-- When no steps are left the table is full. -/
theorem Filling.result_eq (h : run.Filling value total length) (hdone : ∀ i, run.todo i = 0) :
    run.result = .ok (Array.ofFn fun p : Fin total => value p) := by
  rw [result, h.findSome?_failure]
  refine congrArg Except.ok (Array.ext ?_ ?_)
  · rw [h.size_entries, Array.size_ofFn]
  · intro p hp _
    obtain ⟨i, w, hw, hfirst, hlast⟩ := h.covers p (by rwa [← h.size_entries])
    have hnext : w.stop ≤ w.next := by
      have := hdone i
      rw [todo_of_eq_some hw, Worker.todo] at this
      omega
    have hwritten := h.written i w hw p hfirst (by omega)
    rw [Array.getElem?_eq_getElem hp, Option.some_inj] at hwritten
    rw [hwritten, Array.getElem_ofFn]

/-- **Any order of steps fills the table**, if each worker takes as many steps as it needs. -/
theorem Filling.result_follow (hentry : ∀ p, p < total → entry p = .ok (value p))
    (h : run.Filling value total length) {schedule : List Nat}
    (hschedule : ∀ i, run.todo i ≤ schedule.count i) :
    (run.follow entry schedule).result = .ok (Array.ofFn fun p : Fin total => value p) := by
  refine (h.follow hentry schedule).result_eq ?_
  intro i
  rw [todo_follow hentry h]
  exact Nat.sub_eq_zero_of_le (hschedule i)

/-! ## The start, and taking turns -/

/-- The worker of a slice, with everything yet to do. -/
def freshWorker (total workers slice : Nat) : Worker ε where
  next := slice * sliceLength total workers
  stop := min ((slice + 1) * sliceLength total workers) total

theorem getElem?_start (total workers i : Nat) :
    (start total workers : Run ε).workers[i]?
      = if i < (total + sliceLength total workers - 1) / sliceLength total workers then
          some (freshWorker total workers i) else none := by
  simp only [start, Array.getElem?_ofFn, dite_eq_ite]
  rfl

theorem eq_freshWorker {workers i : Nat} {w : Worker ε}
    (hw : (start total workers : Run ε).workers[i]? = some w) :
    w = freshWorker total workers i := by
  rw [getElem?_start] at hw
  split at hw
  · cases hw; rfl
  · cases hw

/-- The slices cut the table without a gap. -/
theorem filling_start (value : Nat → Nat) {workers : Nat} (htotal : 0 < total)
    (hworkers : 0 < workers) :
    (start total workers : Run ε).Filling value total (sliceLength total workers) where
  size_entries := Array.size_replicate
  noFailure i w hw := by rw [eq_freshWorker hw, freshWorker]
  stop_le i w hw := by
    rw [eq_freshWorker hw]
    exact Nat.min_le_right _ _
  covers p hp := by
    have hlength : 0 < sliceLength total workers := Nat.div_pos (by omega) hworkers
    have hfirst : p / sliceLength total workers * sliceLength total workers ≤ p :=
      Nat.div_mul_le_self _ _
    have hlast : p < (p / sliceLength total workers + 1) * sliceLength total workers := by
      rw [Nat.mul_comm]
      exact Nat.lt_mul_div_succ p hlength
    have hslice : p / sliceLength total workers
        < (total + sliceLength total workers - 1) / sliceLength total workers := by
      rw [← Nat.succ_le_iff, Nat.le_div_iff_mul_le hlength, Nat.succ_mul]
      omega
    refine ⟨p / sliceLength total workers, freshWorker total workers _, ?_, hfirst,
      lt_min hlast hp⟩
    rw [getElem?_start, if_pos hslice]
  written i w hw p hfirst hlast := by
    rw [eq_freshWorker hw, freshWorker] at hlast
    exact absurd hlast (Nat.not_lt.mpr hfirst)

/-- Numbered elements, each repeated by its own count under its number. -/
theorem count_flatMap_replicate {α : Type} (f : α → Nat) (j : Nat) :
    ∀ (xs : List α) (first : Nat),
      ((xs.zipIdx first).flatMap fun (x, i) => List.replicate (f x) i).count j
        = if first ≤ j then (xs[j - first]?).elim 0 f else 0
  | [], first => by simp
  | x :: xs, first => by
      rw [List.zipIdx_cons, List.flatMap_cons, List.count_append,
        count_flatMap_replicate f j xs (first + 1), List.count_replicate]
      rcases lt_trichotomy first j with hlt | rfl | hgt
      · have hindex : j - first = j - (first + 1) + 1 := by omega
        simp [hlt, hlt.le, hlt.ne, hindex]
      · simp
      · simp [hgt.ne', hgt.not_ge, Nat.not_le.mpr (Nat.lt_succ_of_lt hgt)]

/-- A worker's turn is as long as it needs. -/
theorem todo_start_le_count_inTurn {workers : Nat} (i : Nat) :
    (start total workers : Run ε).todo i
      ≤ (start total workers : Run ε).inTurn.count i := by
  rw [inTurn, count_flatMap_replicate (fun w : Worker ε => 2 * (w.stop - w.next)),
    if_pos (Nat.zero_le i), Nat.sub_zero, todo, Array.getElem?_toList]
  cases hw : (start total workers : Run ε).workers[i]? with
  | none => exact le_rfl
  | some w =>
    rw [eq_freshWorker hw]
    exact le_rfl

end Run

end ExponentialHistogram.Generator
