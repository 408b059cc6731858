/-
ExponentialHistogram.Proofs.Loop — loops taken apart into turns.

A recursive function says what a loop ends with and not how it gets there.
Where the way matters (how many turns it takes, which numbers a variable goes
through, which places of a table are looked at), a loop is given by its single
turn, and `Runs` lists the states of a whole run. A loop that runs has ended,
it has no other run (`Runs.unique`), and what each turn keeps is true of every
state on the way (`Runs.forall_mem`).

A reader goes through a list by one step for each entry, and any step may fail.
Steps that do not are passed over one by one or many at a time
(`foldlM_cons_of_ok`, `foldlM_append_of_ok`).
-/

namespace ExponentialHistogram

/-- The loop goes through these states, the first one being its start, and ends with the result. A
turn leads to another state or to the result. -/
inductive Runs {σ ρ : Type} (turn : σ → σ ⊕ ρ) : (start : σ) → (states : List σ) → ρ → Prop where
  | stop {s : σ} {result : ρ} : turn s = .inr result → Runs turn s [s] result
  | go {s s' : σ} {states : List σ} {result : ρ} :
      turn s = .inl s' → Runs turn s' states result → Runs turn s (s :: states) result

namespace Runs

variable {σ ρ : Type} {turn : σ → σ ⊕ ρ} {s : σ} {states states' : List σ} {result result' : ρ}

/-- A loop runs in one way only. -/
theorem unique (h : Runs turn s states result) (h' : Runs turn s states' result') :
    states = states' ∧ result = result' := by
  induction h generalizing states' with
  | stop hstop =>
    cases h' with
    | stop hstop' =>
      rw [hstop] at hstop'
      exact ⟨rfl, Sum.inr.inj hstop'⟩
    | go hgo _ =>
      rw [hstop] at hgo
      cases hgo
  | go hgo _ ih =>
    cases h' with
    | stop hstop =>
      rw [hgo] at hstop
      cases hstop
    | go hgo' hrest =>
      rw [hgo] at hgo'
      cases hgo'
      obtain ⟨hstates, hresult⟩ := ih hrest
      exact ⟨by rw [hstates], hresult⟩

/-- What holds at the start and is kept by every turn holds on the whole way. -/
theorem forall_mem {Invariant : σ → Prop} (h : Runs turn s states result) (hstart : Invariant s)
    (hkeep : ∀ s s', Invariant s → turn s = .inl s' → Invariant s') :
    ∀ state ∈ states, Invariant state := by
  induction h with
  | stop _ => simpa using hstart
  | go hgo _ ih =>
    rw [List.forall_mem_cons]
    exact ⟨hstart, ih (hkeep _ _ hstart hgo)⟩

end Runs

/-! ## Steps that may fail -/

section Steps

variable {ε σ α β : Type} {step : σ → α → Except ε σ} {s s' : σ} {a : α} {as bs : List α}

/-- A step that does not fail can be passed over. -/
theorem bind_eq_of_eq_ok {x : Except ε α} (h : x = .ok a) (f : α → Except ε β) : (x >>= f) = f a := by
  rw [h]
  rfl

theorem bind_eq_ok_iff {x : Except ε α} {f : α → Except ε β} {b : β} :
    (x >>= f) = .ok b ↔ ∃ a, x = .ok a ∧ f a = .ok b := by
  cases x <;> simp [bind, Except.bind]

theorem bind_eq_error_iff {x : Except ε α} {f : α → Except ε β} {e : ε} :
    (x >>= f) = .error e ↔ x = .error e ∨ ∃ a, x = .ok a ∧ f a = .error e := by
  cases x <;> simp [bind, Except.bind]

theorem foldlM_cons_of_ok (h : step s a = .ok s') :
    (a :: as).foldlM step s = as.foldlM step s' := by
  rw [List.foldlM_cons]
  exact bind_eq_of_eq_ok h _

theorem foldlM_append_of_ok (h : as.foldlM step s = .ok s') :
    (as ++ bs).foldlM step s = bs.foldlM step s' := by
  rw [List.foldlM_append]
  exact bind_eq_of_eq_ok h _

end Steps

end ExponentialHistogram
