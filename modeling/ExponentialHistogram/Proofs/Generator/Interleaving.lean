/-
ExponentialHistogram.Proofs.Generator.Interleaving — what the workers have
written, at any moment.

The table alone does not tell whether a position was written twice. So the
writes of a schedule are listed (`writes`), each with its worker, its position
and its entry. The table is what these writes make of an empty one
(`entries_follow`), and `Logged` says of any schedule which they are: for each
worker those of its slice up to its next position, and no write twice.

A write is counted by a step of its own, so the counter is behind the list by
the workers that owe a count, at most all of them. Once no worker has a step
left, none owes one, and the writes are those of a full table in some order
(`Logged.perm`).
-/
import Mathlib
import ExponentialHistogram.Proofs.Generator.Table

namespace ExponentialHistogram.Generator

/-- An entry that a worker puts at a position. -/
@[ext]
structure Write where
  worker : ℕ
  position : ℕ
  significand : ℕ
deriving DecidableEq, Repr

namespace Run

variable {ε : Type} {entry : ℕ → Except ε ℕ} {run : Run ε}

/-! ## The writes of a schedule -/

/-- What the next step of the worker writes, if it writes. -/
def write? (entry : ℕ → Except ε ℕ) (run : Run ε) (worker : ℕ) : Option Write :=
  match run.workers[worker]? with
  | none => none
  | some w =>
    if w.owesCount || w.failure.isSome || w.stop ≤ w.next then none
    else match entry w.next with
      | .ok significand => some ⟨worker, w.next, significand⟩
      | .error _ => none

/-- What the steps of a schedule write, in their order. -/
def writes (entry : ℕ → Except ε ℕ) : (run : Run ε) → (schedule : List ℕ) → List Write
  | _, [] => []
  | run, worker :: schedule =>
    (run.write? entry worker).toList ++ writes entry (run.step entry worker) schedule

/-- The table after a write. -/
def put (entries : Array ℕ) (w : Write) : Array ℕ :=
  entries.setIfInBounds w.position w.significand

section

variable {worker : ℕ} {w : Worker ε} (hw : run.workers[worker]? = some w)
include hw

theorem write?_of_writes {significand : ℕ} (howes : w.owesCount = false) (hfailure : w.failure = none)
    (hlt : w.next < w.stop) (hok : entry w.next = .ok significand) :
    run.write? entry worker = some ⟨worker, w.next, significand⟩ := by
  simp [write?, hw, howes, hfailure, hlt.not_ge, hok]

theorem write?_of_owes (howes : w.owesCount = true) : run.write? entry worker = none := by
  simp [write?, hw, howes]

theorem write?_of_rests (hrest : w.failure.isSome = true ∨ w.stop ≤ w.next) :
    run.write? entry worker = none := by
  rcases hrest with hfailure | hdone
  · simp [write?, hw, hfailure]
  · simp [write?, hw, hdone]

theorem write?_of_fails {e : ε} (herror : entry w.next = .error e) :
    run.write? entry worker = none := by
  simp [write?, hw, herror]

end

theorem write?_of_absent {worker : ℕ} (h : run.workers[worker]? = none) :
    run.write? entry worker = none := by
  simp [write?, h]

theorem Step.entries_eq {worker : ℕ} {after : Run ε} (hstep : Step entry run worker after) :
    after.entries = (run.write? entry worker).toList.foldl put run.entries := by
  cases hstep with
  | absent habsent => simp [write?_of_absent habsent]
  | count hw howes => simp [write?_of_owes hw howes]
  | rest hw _ hrest => simp [write?_of_rests hw hrest]
  | write hw howes hfailure hlt hok => simp [write?_of_writes hw howes hfailure hlt hok, put]
  | fail hw _ _ _ herror => simp [write?_of_fails hw herror]

/-- The writes make the table. -/
theorem entries_follow (run : Run ε) (schedule : List ℕ) :
    (run.follow entry schedule).entries = (run.writes entry schedule).foldl put run.entries := by
  induction schedule generalizing run with
  | nil => rfl
  | cons worker schedule ih =>
    rw [writes, List.foldl_append, ← (step_spec entry run worker).entries_eq]
    exact ih (run.step entry worker)

theorem Step.completed_le {worker : ℕ} {after : Run ε} (hstep : Step entry run worker after) :
    run.completed ≤ after.completed := by
  cases hstep with
  | count _ _ => exact Nat.le_succ _
  | _ => exact le_rfl

/-- The counter never decreases. -/
theorem completed_le_follow (run : Run ε) (schedule : List ℕ) :
    run.completed ≤ (run.follow entry schedule).completed := by
  induction schedule generalizing run with
  | nil => exact le_rfl
  | cons worker schedule ih => exact (step_spec entry run worker).completed_le.trans (ih _)

theorem follow_append (run : Run ε) (earlier later : List ℕ) :
    run.follow entry (earlier ++ later) = (run.follow entry earlier).follow entry later :=
  List.foldl_append

/-! ## The end of a run -/

/-- No worker has a step left. -/
def AtRest (entry : ℕ → Except ε ℕ) (run : Run ε) : Prop :=
  ∀ worker, run.step entry worker = run

/-- A worker with no steps to do stays as it is. -/
theorem Step.eq_self {worker : ℕ} {after : Run ε} (hstep : Step entry run worker after)
    (h : run.todo worker = 0) : after = run := by
  cases hstep with
  | absent _ => rfl
  | rest _ _ _ => rfl
  | count hw howes =>
    rw [todo_of_eq_some hw] at h
    simp [Worker.todo, howes] at h
  | write hw _ _ hlt _ =>
    rw [todo_of_eq_some hw, Worker.todo] at h
    omega
  | fail hw _ _ hlt _ =>
    rw [todo_of_eq_some hw, Worker.todo] at h
    omega

/-! ## Which writes there are -/

/-- The number of workers that have written an entry and not counted it yet. -/
def owing (run : Run ε) : ℕ := run.workers.countP (·.owesCount)

theorem owing_update {i : ℕ} {w : Worker ε} (hw : run.workers[i]? = some w) (w' : Worker ε)
    (entries : Array ℕ) (completed : ℕ) :
    owing ⟨entries, completed, run.workers.setIfInBounds i w'⟩ + (if w.owesCount then 1 else 0)
      = run.owing + if w'.owesCount then 1 else 0 := by
  obtain ⟨hlt, rfl⟩ := Array.getElem?_eq_some_iff.mp hw
  have hle : (if run.workers[i].owesCount then 1 else 0) ≤ run.workers.countP (·.owesCount) :=
    Array.boole_getElem_le_countP hlt
  rw [owing, owing, Array.setIfInBounds_def, dif_pos hlt, Array.countP_set]
  omega

theorem owing_eq_zero (h : ∀ (i : ℕ) (u : Worker ε), run.workers[i]? = some u → u.owesCount = false) :
    run.owing = 0 := by
  rw [owing, Array.countP_eq_zero]
  intro u hu
  obtain ⟨i, hi⟩ := Array.getElem?_of_mem hu
  simp [h i u hi]

/-- Each worker keeps to its slice. -/
def InSlices (length : ℕ) (run : Run ε) : Prop :=
  ∀ (i : ℕ) (u : Worker ε), run.workers[i]? = some u →
    i * length ≤ u.next ∧ u.next ≤ u.stop ∧ u.stop ≤ (i + 1) * length

/-- The write is that of the entry at its position, by the worker of the slice, and the worker has
got past it. -/
def Done (value : ℕ → ℕ) (length : ℕ) (run : Run ε) (w : Write) : Prop :=
  ∃ u : Worker ε, run.workers[w.worker]? = some u ∧
    w.worker * length ≤ w.position ∧ w.position < u.next ∧ w.significand = value w.position

/-- The writes that have led to this run are those that are done, each once. All but the ones still
owed are counted. -/
structure Logged (value : ℕ → ℕ) (length : ℕ) (run : Run ε) (log : List Write) : Prop where
  nodup : log.Nodup
  mem_iff : ∀ w, w ∈ log ↔ run.Done value length w
  length_eq : log.length = run.completed + run.owing
  inSlices : run.InSlices length

variable {value : ℕ → ℕ} {total length : ℕ} {log : List Write}

section

variable {i : ℕ} {u : Worker ε} (hu : run.workers[i]? = some u)
include hu

theorem InSlices.update (h : run.InSlices length) (u' : Worker ε) (hnext : u.next ≤ u'.next)
    (hlast : u'.next ≤ u.stop) (hstop : u'.stop = u.stop) (entries : Array ℕ) (completed : ℕ) :
    InSlices length ⟨entries, completed, run.workers.setIfInBounds i u'⟩ := by
  intro j v hv
  rw [getElem?_update hu] at hv
  split at hv
  · rename_i heq
    subst heq
    cases hv
    obtain ⟨hfirst, -, hend⟩ := h i u hu
    exact ⟨hfirst.trans hnext, hstop ▸ hlast, hstop ▸ hend⟩
  · exact h j v hv

theorem done_iff_of_worker_eq {w : Write} (hw : w.worker = i) :
    run.Done value length w ↔
      i * length ≤ w.position ∧ w.position < u.next ∧ w.significand = value w.position := by
  simp [Done, hw, hu]

theorem done_update (u' : Worker ε) (entries : Array ℕ) (completed : ℕ) (w : Write) :
    Done value length ⟨entries, completed, run.workers.setIfInBounds i u'⟩ w ↔
      if w.worker = i then
        i * length ≤ w.position ∧ w.position < u'.next ∧ w.significand = value w.position
      else run.Done value length w := by
  simp only [Done, getElem?_update hu, eq_comm (a := i)]
  split
  · rename_i heq
    simp [heq]
  · rfl

end

/-- The write at the next position of its worker is new. -/
theorem mem_concat_iff {u : Worker ε} (h : run.Logged value length log) {i : ℕ}
    (hu : run.workers[i]? = some u) (w : Write) :
    w ∈ log ++ [⟨i, u.next, value u.next⟩] ↔
      if w.worker = i then
        i * length ≤ w.position ∧ w.position < u.next + 1 ∧ w.significand = value w.position
      else run.Done value length w := by
  have hfirst := (h.inSlices i u hu).1
  rw [List.mem_append, List.mem_singleton, h.mem_iff]
  obtain ⟨worker, position, significand⟩ := w
  split
  · rename_i heq
    subst heq
    rw [done_iff_of_worker_eq hu rfl, Nat.lt_succ_iff_lt_or_eq, Write.mk.injEq]
    constructor
    · rintro (⟨hle, hlt, hvalue⟩ | ⟨-, rfl, rfl⟩)
      · exact ⟨hle, Or.inl hlt, hvalue⟩
      · exact ⟨hfirst, Or.inr rfl, rfl⟩
    · rintro ⟨hle, hlt | hlast, hvalue⟩
      · exact Or.inl ⟨hle, hlt, hvalue⟩
      · exact Or.inr ⟨rfl, hlast, hlast ▸ hvalue⟩
  · rename_i hne
    simp [Write.mk.injEq, hne]

section

variable (hentry : ∀ p, p < total → entry p = .ok (value p))
include hentry

/-- One step of any worker. -/
theorem Logged.step (h : run.Logged value length log) (hfilling : run.Filling value total length)
    {worker : ℕ} {after : Run ε} (hstep : Step entry run worker after) :
    after.Logged value length (log ++ (run.write? entry worker).toList) := by
  have hlength := h.length_eq
  cases hstep with
  | absent habsent => simpa [write?_of_absent habsent] using h
  | @count u hu howes =>
    have hslices := h.inSlices.update hu { u with owesCount := false } le_rfl
      (h.inSlices worker u hu).2.1 rfl run.entries (run.completed + 1)
    have howing := owing_update hu { u with owesCount := false } run.entries (run.completed + 1)
    simp only [howes, if_true, Bool.false_eq_true, if_false] at howing
    rw [write?_of_owes hu howes, Option.toList_none, List.append_nil]
    refine ⟨h.nodup, ?_, ?_, hslices⟩
    · intro w
      rw [h.mem_iff, done_update hu]
      split
      · rename_i heq
        exact done_iff_of_worker_eq hu heq
      · rfl
    · change log.length = run.completed + 1 + _
      omega
  | rest hu _ hrest => simpa [write?_of_rests hu hrest] using h
  | @write u significand hu howes hfailure hlt hok =>
    obtain rfl : value u.next = significand := by
      rw [hentry _ (hlt.trans_le (hfilling.stop_le _ _ hu))] at hok
      exact Except.ok.inj hok
    have hslices := h.inSlices.update hu { u with next := u.next + 1, owesCount := true }
      (Nat.le_succ _) hlt rfl (run.entries.setIfInBounds u.next (value u.next)) run.completed
    have howing := owing_update hu { u with next := u.next + 1, owesCount := true }
      (run.entries.setIfInBounds u.next (value u.next)) run.completed
    simp only [howes, if_true, Bool.false_eq_true, if_false] at howing
    rw [write?_of_writes hu howes hfailure hlt hok, Option.toList_some]
    refine ⟨?_, ?_, ?_, hslices⟩
    · -- What the worker has written so far lies below its next position.
      rw [List.nodup_append]
      refine ⟨h.nodup, List.nodup_singleton _, ?_⟩
      rintro w hw _ hnew rfl
      rw [List.mem_singleton] at hnew
      rw [h.mem_iff, done_iff_of_worker_eq hu (by rw [hnew]), hnew] at hw
      exact absurd hw.2.1 (lt_irrefl _)
    · intro w
      rw [mem_concat_iff h hu, done_update hu]
    · rw [List.length_append, List.length_singleton]
      change log.length + 1 = run.completed + _
      omega
  | @fail u e hu _ _ hlt herror =>
    rw [hentry _ (hlt.trans_le (hfilling.stop_le _ _ hu))] at herror
    cases herror

/-- **A whole schedule**, in any order. -/
theorem Logged.follow (h : run.Logged value length log) (hfilling : run.Filling value total length)
    (schedule : List ℕ) :
    (run.follow entry schedule).Logged value length (log ++ run.writes entry schedule) := by
  induction schedule generalizing run log with
  | nil => rwa [writes, List.append_nil]
  | cons worker schedule ih =>
    rw [writes, ← List.append_assoc]
    have hstep := step_spec entry run worker
    exact ih (h.step hentry hfilling hstep) (hfilling.step hentry hstep)

end

/-! ## Each position once -/

/-- The slices are disjoint, so the position tells the worker. -/
theorem Done.worker_eq {w : Write} (h : run.Done value length w) (hslices : run.InSlices length) :
    w.worker = w.position / length := by
  obtain ⟨u, hu, hfirst, hlast, -⟩ := h
  obtain ⟨-, hstop, hend⟩ := hslices _ u hu
  exact (Nat.div_eq_of_lt_le hfirst (by omega)).symm

theorem Done.significand_eq {w : Write} (h : run.Done value length w) :
    w.significand = value w.position := by
  obtain ⟨-, -, -, -, hvalue⟩ := h
  exact hvalue

/-- **No position is written twice.** -/
theorem Logged.positions_nodup (h : run.Logged value length log) :
    (log.map Write.position).Nodup := by
  refine h.nodup.map_on ?_
  intro v hv w hw hposition
  rw [h.mem_iff] at hv hw
  refine Write.ext ?_ hposition ?_
  · rw [hv.worker_eq h.inSlices, hw.worker_eq h.inSlices, hposition]
  · rw [hv.significand_eq, hw.significand_eq, hposition]

/-- The writes that fill a table, in the order of the positions. -/
def fullLog (value : ℕ → ℕ) (total length : ℕ) : List Write :=
  (List.range total).map fun p => ⟨p / length, p, value p⟩

theorem mem_fullLog {w : Write} :
    w ∈ fullLog value total length ↔
      w.position < total ∧ w.worker = w.position / length ∧ w.significand = value w.position := by
  obtain ⟨worker, position, significand⟩ := w
  simp only [fullLog, List.mem_map, List.mem_range, Write.mk.injEq]
  constructor
  · rintro ⟨p, hp, rfl, rfl, rfl⟩
    exact ⟨hp, rfl, rfl⟩
  · rintro ⟨hp, hworker, hvalue⟩
    exact ⟨position, hp, hworker.symm, rfl, hvalue.symm⟩

theorem Done.mem_fullLog {w : Write} (h : run.Done value length w) (hslices : run.InSlices length)
    (hfilling : run.Filling value total length) : w ∈ fullLog value total length := by
  refine Run.mem_fullLog.mpr ⟨?_, h.worker_eq hslices, h.significand_eq⟩
  obtain ⟨u, hu, -, hlast, -⟩ := h
  exact hlast.trans_le ((hslices _ u hu).2.1.trans (hfilling.stop_le _ u hu))

theorem nodup_fullLog : (fullLog value total length).Nodup := by
  refine List.nodup_range.map ?_
  intro p q heq
  exact congrArg Write.position heq

/-- **When no steps are left each position has been written**, by the worker of its slice. -/
theorem Logged.perm (h : run.Logged value length log) (hfilling : run.Filling value total length)
    (hdone : ∀ i, run.todo i = 0) : log.Perm (fullLog value total length) := by
  have hnext : ∀ (i : ℕ) (u : Worker ε), run.workers[i]? = some u → u.stop ≤ u.next := by
    intro i u hu
    have hzero := hdone i
    rw [todo_of_eq_some hu, Worker.todo] at hzero
    omega
  rw [List.perm_ext_iff_of_nodup h.nodup nodup_fullLog]
  intro w
  rw [h.mem_iff]
  constructor
  · intro hw
    exact hw.mem_fullLog h.inSlices hfilling
  · intro hw
    obtain ⟨hlt, hworker, hvalue⟩ := mem_fullLog.mp hw
    obtain ⟨i, u, hu, hfirst, hlast⟩ := hfilling.covers _ hlt
    have hend := (h.inSlices i u hu).2.2
    obtain rfl : i = w.worker := by
      rw [hworker]
      exact (Nat.div_eq_of_lt_le hfirst (by omega)).symm
    exact ⟨u, hu, hfirst, hlast.trans_le (hnext _ u hu), hvalue⟩

/-- Then nothing is owed, and the counter has arrived. -/
theorem Logged.completed_eq (h : run.Logged value length log)
    (hfilling : run.Filling value total length) (hdone : ∀ i, run.todo i = 0) :
    run.completed = total := by
  have howing : run.owing = 0 := by
    refine owing_eq_zero ?_
    intro i u hu
    have hzero := hdone i
    rw [todo_of_eq_some hu, Worker.todo] at hzero
    by_contra howes
    simp [howes] at hzero
  have hlength := (h.perm hfilling hdone).length_eq
  rw [h.length_eq, howing, fullLog, List.length_map, List.length_range] at hlength
  exact hlength

/-! ## From the start on -/

theorem le_mul_sliceLength (total : ℕ) {workers : ℕ} (hworkers : 0 < workers) :
    total ≤ workers * sliceLength total workers := by
  have hlt := Nat.lt_mul_div_succ (total + workers - 1) hworkers
  rw [Nat.mul_succ] at hlt
  unfold sliceLength
  omega

/-- There are no more slices than workers. -/
theorem size_workers_start_le (total : ℕ) {workers : ℕ} (hworkers : 0 < workers) :
    (start total workers : Run ε).workers.size ≤ workers := by
  have hcover := le_mul_sliceLength total hworkers
  simp only [start, Array.size_ofFn]
  rcases Nat.eq_zero_or_pos (sliceLength total workers) with hzero | hpos
  · rw [hzero, Nat.div_zero]
    exact Nat.zero_le _
  · rw [Nat.div_le_iff_le_mul_add_pred hpos, Nat.mul_comm]
    omega

theorem Step.size_workers {worker : ℕ} {after : Run ε} (hstep : Step entry run worker after) :
    after.workers.size = run.workers.size := by
  cases hstep with
  | absent _ => rfl
  | rest _ _ _ => rfl
  | count _ _ => exact Array.size_setIfInBounds
  | write _ _ _ _ _ => exact Array.size_setIfInBounds
  | fail _ _ _ _ _ => exact Array.size_setIfInBounds

theorem size_workers_follow (run : Run ε) (schedule : List ℕ) :
    (run.follow entry schedule).workers.size = run.workers.size := by
  induction schedule generalizing run with
  | nil => rfl
  | cons worker schedule ih => exact (ih _).trans (step_spec entry run worker).size_workers

/-- A slice begins within the table. -/
theorem inSlices_start (total workers : ℕ) :
    (start total workers : Run ε).InSlices (sliceLength total workers) := by
  intro i u hu
  have hslice : i * sliceLength total workers ≤ total := by
    rw [getElem?_start] at hu
    split at hu
    · rename_i hlt
      have hpos : 0 < sliceLength total workers := by
        refine Nat.pos_of_ne_zero fun hzero => ?_
        rw [hzero, Nat.div_zero] at hlt
        exact absurd hlt (Nat.not_lt_zero _)
      have := (Nat.le_div_iff_mul_le hpos).mp hlt
      rw [Nat.succ_mul] at this
      omega
    · cases hu
  rw [eq_freshWorker hu, freshWorker]
  refine ⟨le_rfl, le_min ?_ hslice, Nat.min_le_left _ _⟩
  exact Nat.mul_le_mul_right _ (Nat.le_succ i)

theorem logged_start (value : ℕ → ℕ) (total workers : ℕ) :
    (start total workers : Run ε).Logged value (sliceLength total workers) [] where
  nodup := List.nodup_nil
  mem_iff w := by
    refine iff_of_false List.not_mem_nil ?_
    rintro ⟨u, hu, hfirst, hlast, -⟩
    rw [eq_freshWorker hu, freshWorker] at hlast
    exact absurd hlast (Nat.not_lt.mpr hfirst)
  length_eq := by
    rw [owing_eq_zero fun i u hu => by rw [eq_freshWorker hu, freshWorker]]
    rfl
  inSlices := inSlices_start total workers

/-! ## Every interleaving -/

/-- What holds of the workers of a table after the steps of a schedule, be they done or not. -/
structure Midway (entry : ℕ → Except ε ℕ) (total workers : ℕ) (schedule : List ℕ) : Prop where
  /-- The counter has never been higher. -/
  completed_mono : ∀ earlier later, schedule = earlier ++ later →
    ((start total workers).follow entry earlier).completed
      ≤ ((start total workers).follow entry schedule).completed
  /-- It does not exceed the number of entries written so far. -/
  completed_le : ((start total workers).follow entry schedule).completed
    ≤ ((start total workers).writes entry schedule).length
  /-- And is behind it by the number of workers at most. -/
  length_le : ((start total workers).writes entry schedule).length
    ≤ ((start total workers).follow entry schedule).completed + workers
  positions_nodup : (((start total workers).writes entry schedule).map Write.position).Nodup
  /-- Each write is of the entry at its position, by the worker of the slice. -/
  writes_correct : ∀ w ∈ (start total workers).writes entry schedule, w.position < total ∧
    w.worker = w.position / sliceLength total workers ∧ entry w.position = .ok w.significand
  /-- The writes, one after the other, make the table. -/
  entries_eq : ((start total workers).follow entry schedule).entries
    = ((start total workers).writes entry schedule).foldl put (Array.replicate total 0)
  /-- The workers can finish from here. -/
  finishes : ∃ later, AtRest entry ((start total workers).follow entry (schedule ++ later))

section

variable (hentry : ∀ p, p < total → entry p = .ok (value p))
include hentry

/-- A run at rest has no steps left. -/
theorem AtRest.todo_eq_zero (h : AtRest entry run) (hfilling : run.Filling value total length)
    (i : ℕ) : run.todo i = 0 := by
  have hstep := todo_step hentry hfilling (step_spec entry run i) i
  rw [h i, if_pos rfl] at hstep
  omega

/-- A schedule that names each worker often enough comes to rest. -/
theorem atRest_follow (hfilling : run.Filling value total length) {schedule : List ℕ}
    (hschedule : ∀ i, run.todo i ≤ schedule.count i) : AtRest entry (run.follow entry schedule) := by
  intro worker
  refine (step_spec entry _ worker).eq_self ?_
  rw [todo_follow hentry hfilling]
  exact Nat.sub_eq_zero_of_le (hschedule worker)

variable {workers : ℕ} (htotal : 0 < total) (hworkers : 0 < workers)
include htotal hworkers

theorem midway_follow (schedule : List ℕ) : Midway entry total workers schedule := by
  have hfilling := filling_start (ε := ε) value htotal hworkers
  have hlogged := (logged_start (ε := ε) value total workers).follow hentry hfilling schedule
  rw [List.nil_append] at hlogged
  have hlength := hlogged.length_eq
  have howing : ((start total workers).follow entry schedule).owing ≤ workers := by
    refine le_trans Array.countP_le_size ?_
    rw [size_workers_follow]
    exact size_workers_start_le total hworkers
  refine ⟨?_, by omega, by omega, hlogged.positions_nodup, ?_, entries_follow _ schedule, ?_⟩
  · rintro earlier later rfl
    rw [follow_append]
    exact completed_le_follow _ later
  · intro w hw
    obtain ⟨hlt, hworker, hvalue⟩ := mem_fullLog.mp (((hlogged.mem_iff w).mp hw).mem_fullLog
      hlogged.inSlices (hfilling.follow hentry schedule))
    exact ⟨hlt, hworker, hvalue ▸ hentry _ hlt⟩
  · refine ⟨(start total workers : Run ε).inTurn, atRest_follow hentry hfilling ?_⟩
    intro worker
    rw [List.count_append]
    exact (todo_start_le_count_inTurn worker).trans (Nat.le_add_left _ _)

end

end Run

/-! ## The exact method -/

open Run

/-- The entries of the exact method, at the positions of a table. -/
theorem exactEntry_eq_leastAttaining {scale position : ℕ} (hscale : scale ≤ 20)
    (hposition : position < 2 ^ scale) :
    exactEntry scale position = .ok (Threshold.leastAttaining scale position - 2 ^ 52) := by
  have hthreshold := Threshold.isThreshold_leastAttaining scale position
  rw [← Nat.add_sub_of_le hthreshold.le_threshold] at hthreshold
  rw [exactEntry, hthreshold.rootEntry_eq_some (by omega) hposition]

/-- **Nothing is lost, duplicated or misplaced.** There is one table that any number of workers makes
in any order of their steps. Whenever none has a step left each position has been written once, by
the worker of its slice, and the counter has arrived at the number of positions; until then it is
behind the writes by the number of workers at most. -/
theorem exactTable_interleavings {scale : ℕ} (hscale : scale ≤ 20) :
    ∃ table : Array ℕ, table.size = 2 ^ scale ∧
      (∀ k, k < 2 ^ scale → ∃ significand,
        exactEntry scale k = .ok significand ∧ table[k]? = some significand) ∧
      ∀ workers, 0 < workers →
        exactTable scale workers = .ok table ∧
        ∀ schedule, Midway (exactEntry scale) (2 ^ scale) workers schedule ∧
          (AtRest (exactEntry scale)
              ((start (2 ^ scale) workers).follow (exactEntry scale) schedule) →
            ((start (2 ^ scale) workers).follow (exactEntry scale) schedule).result = .ok table ∧
            ((start (2 ^ scale) workers).follow (exactEntry scale) schedule).completed
              = 2 ^ scale ∧
            ((start (2 ^ scale) workers).writes (exactEntry scale) schedule).Perm
              ((List.range (2 ^ scale)).map fun k =>
                ⟨k / sliceLength (2 ^ scale) workers, k, table.getD k 0⟩)) := by
  obtain ⟨value, hvalue⟩ : ∃ value : ℕ → ℕ, value = fun k =>
    Threshold.leastAttaining scale k - 2 ^ 52 := ⟨_, rfl⟩
  have hentry : ∀ k, k < 2 ^ scale → exactEntry scale k = .ok (value k) := by
    intro k hk
    rw [hvalue, exactEntry_eq_leastAttaining hscale hk]
  have hlookup : ∀ k, k < 2 ^ scale →
      (Array.ofFn fun p : Fin (2 ^ scale) => value p)[k]? = some (value k) := by
    intro k hk
    rw [Array.getElem?_ofFn, dif_pos hk]
  refine ⟨Array.ofFn fun p : Fin (2 ^ scale) => value p, Array.size_ofFn, ?_, ?_⟩
  · intro k hk
    exact ⟨value k, hentry k hk, hlookup k hk⟩
  · intro workers hworkers
    have hfilling := filling_start (ε := GeneratorError) value (Nat.two_pow_pos scale) hworkers
    refine ⟨?_, ?_⟩
    · rw [exactTable, if_neg (by omega), Int.toNat_natCast]
      exact hfilling.result_follow hentry todo_start_le_count_inTurn
    · intro schedule
      refine ⟨midway_follow hentry (Nat.two_pow_pos scale) hworkers schedule, ?_⟩
      intro hrest
      have hfull := hfilling.follow hentry schedule
      have hdone := hrest.todo_eq_zero hentry hfull
      have hlogged := (logged_start value (2 ^ scale) workers).follow hentry hfilling schedule
      refine ⟨hfull.result_eq hdone, hlogged.completed_eq hfull hdone, ?_⟩
      have hperm := hlogged.perm hfull hdone
      rw [List.nil_append, fullLog] at hperm
      refine hperm.trans (List.Perm.of_eq (List.map_congr_left ?_))
      intro k hk
      rw [Array.getD_eq_getD_getElem?, hlookup k (List.mem_range.mp hk), Option.getD_some]

/-- Three workers for four positions, of whom one has nothing to do and the others take turns. -/
theorem exactTable_interleavings_three :
    2 ≤ 20 ∧ ∃ table : Array ℕ,
      exactTable 2 1 = .ok table ∧ exactTable 2 3 = .ok table ∧
      ((start (2 ^ 2) 3).follow (exactEntry 2) [1, 0, 0, 1, 1, 0, 0, 1]).result = .ok table ∧
      ((start (2 ^ 2) 3).follow (exactEntry 2) [1, 0, 0, 1, 1, 0, 0, 1]).completed = 2 ^ 2 := by
  have hscale : 2 ≤ 20 := by decide
  have hfilling : (start (2 ^ 2) 3 : Run GeneratorError).Filling
      (fun k => Threshold.leastAttaining 2 k - 2 ^ 52) (2 ^ 2) (sliceLength (2 ^ 2) 3) :=
    filling_start _ (by decide) (by decide)
  have hcount : ∀ i, (start (2 ^ 2) 3 : Run GeneratorError).todo i
      ≤ [1, 0, 0, 1, 1, 0, 0, 1].count i := by
    intro i
    match i with
    | 0 => decide
    | 1 => decide
    | i + 2 => simp [todo, getElem?_start, sliceLength]
  have hrest := atRest_follow (fun _ hp => exactEntry_eq_leastAttaining hscale hp) hfilling hcount
  obtain ⟨table, -, -, hworkers⟩ := exactTable_interleavings hscale
  obtain ⟨hthree, hschedules⟩ := hworkers 3 (by decide)
  obtain ⟨hresult, hcompleted, -⟩ := (hschedules [1, 0, 0, 1, 1, 0, 0, 1]).2 hrest
  exact ⟨hscale, table, (hworkers 1 (by decide)).1, hthree, hresult, hcompleted⟩

end ExponentialHistogram.Generator
