/-
ExponentialHistogram.Generator.Workers — a table filled by several workers.

The positions of a table are cut into slices of equal length, the last one
perhaps shorter, and each slice has a worker of its own. A worker writes the
entry at its next position and then adds one to a counter that all of them
share; the two are separate steps, and the steps of different workers may
come in any order. A schedule is such an order.
-/

namespace ExponentialHistogram.Generator

/-- A worker with the positions from `next` up to `stop` still to do. -/
structure Worker (ε : Type) where
  next : Nat
  stop : Nat
  /-- An entry has been written and not yet counted. -/
  owesCount : Bool := false
  failure : Option ε := none
deriving DecidableEq, Repr

/-- The table so far, the shared counter and the workers. -/
structure Run (ε : Type) where
  entries : Array Nat
  completed : Nat
  workers : Array (Worker ε)
deriving DecidableEq, Repr

/-- The length of a slice: the total divided by the number of workers, rounded up. -/
def sliceLength (total workers : Nat) : Nat := (total + workers - 1) / workers

namespace Run

variable {ε : Type}

/-- An empty table and a worker for each slice. -/
def start (total workers : Nat) : Run ε :=
  let length := sliceLength total workers
  let slices := (total + length - 1) / length
  { entries := Array.replicate total 0
    completed := 0
    workers := Array.ofFn fun slice : Fin slices =>
      { next := slice * length, stop := min ((slice + 1) * length) total } }

/-- One step of a worker: it counts what it has written, or else writes its next entry. A worker
that has failed or is done stays as it is. -/
def step (entry : Nat → Except ε Nat) (run : Run ε) (worker : Nat) : Run ε :=
  match run.workers[worker]? with
  | none => run
  | some w =>
    if w.owesCount then
      { run with
        completed := run.completed + 1
        workers := run.workers.setIfInBounds worker { w with owesCount := false } }
    else if w.failure.isSome || w.stop ≤ w.next then run
    else match entry w.next with
      | .ok significand =>
        { run with
          entries := run.entries.setIfInBounds w.next significand
          workers := run.workers.setIfInBounds worker { w with next := w.next + 1, owesCount := true } }
      | .error e =>
        { run with workers := run.workers.setIfInBounds worker { w with failure := some e } }

/-- The steps of a schedule, which names a worker for each of them. -/
def follow (entry : Nat → Except ε Nat) (run : Run ε) (schedule : List Nat) : Run ε :=
  schedule.foldl (step entry) run

/-- One worker after the other, each until it is done. -/
def inTurn (run : Run ε) : List Nat :=
  run.workers.toList.zipIdx.flatMap fun (w, worker) => List.replicate (2 * (w.stop - w.next)) worker

/-- The table, or the failure of the first worker that has one. -/
def result (run : Run ε) : Except ε (Array Nat) :=
  match run.workers.toList.findSome? (·.failure) with
  | some e => .error e
  | none => .ok run.entries

end Run

end ExponentialHistogram.Generator
