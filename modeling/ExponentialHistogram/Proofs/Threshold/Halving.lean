/-
ExponentialHistogram.Proofs.Threshold.Halving — a search in as many steps as
the scale says.

Halving does not branch on a comparison: it adds the step or nothing, and the
step is shifted down until it is gone. Of this loop (`Halving.turn`) it is to be
seen that it looks at no place outside of the table, and how often it goes round.
Both follow from where it can be when its step is `2 ^ n`: another `2 ^ n`
positions behind are still inside of the table (`runs_bisect`).

What it finds, and what counting finds, is settled by `bisect_isLastReached` and
`countReached_eq`. Nothing is asked of a table but that its entries increase
from zero.
-/
import Mathlib
import ExponentialHistogram.Proofs.Loop
import ExponentialHistogram.Proofs.Threshold.Table

namespace ExponentialHistogram.Threshold.Table

/-- The position that halving has come to, and its next step. -/
structure Halving where
  position : ℕ
  step : ℕ
deriving DecidableEq, Repr

/-- Adds the step if the entry there is reached, and halves the step. A look outside of the table has
no result. -/
def Halving.turn (t : Table) (significand : ℕ) (h : Halving) : Halving ⊕ Option ℕ :=
  if h.step = 0 then .inr (some h.position)
  else match t.entry? (h.position + h.step) with
    | none => .inr none
    | some entry =>
      .inl ⟨h.position + h.step * (if entry ≤ significand then 1 else 0), h.step >>> 1⟩

variable {t : Table} {significand : ℕ}

theorem entry?_eq_some {k : ℕ} (h : k < 2 ^ t.scale) : t.entry? k = some (t.entry k) := by
  unfold entry?
  rw [entry_eq_getElem t h, Vector.getElem?_eq_getElem h]

/-- **Halving is a run of its turns**, as many as the step can be halved, and all within the table. -/
theorem runs_bisect (t : Table) (significand : ℕ) :
    ∀ {n position : ℕ}, position + 2 ^ n ≤ 2 ^ t.scale →
    ∃ states, Runs (Halving.turn t significand) ⟨position, 2 ^ n >>> 1⟩ states
        (some (t.bisect significand n position)) ∧
      states.length = n + 1 ∧
      ∀ h ∈ states, h.step ≠ 0 → h.position + h.step < 2 ^ t.scale
  | 0, position, _ => ⟨[⟨position, 0⟩], .stop rfl, rfl, by simp⟩
  | n + 1, position, hroom => by
      have hhalf : 2 ^ (n + 1) >>> 1 = 2 ^ n := by
        rw [Nat.shiftRight_eq_div_pow, Nat.pow_succ, Nat.pow_one, Nat.mul_div_cancel _ (by decide)]
      have hpos := Nat.two_pow_pos n
      have hdouble : 2 ^ (n + 1) = 2 ^ n + 2 ^ n := by rw [Nat.pow_succ]; omega
      have hinside : position + 2 ^ n < 2 ^ t.scale := by omega
      obtain ⟨next, hnext, hroom', hbisect⟩ : ∃ next,
          next = position + 2 ^ n * (if t.entry (position + 2 ^ n) ≤ significand then 1 else 0) ∧
          next + 2 ^ n ≤ 2 ^ t.scale ∧
          t.bisect significand (n + 1) position = t.bisect significand n next := by
        rw [bisect]
        split
        · exact ⟨position + 2 ^ n, by rw [Nat.mul_one], by omega, rfl⟩
        · exact ⟨position, by rw [Nat.mul_zero, Nat.add_zero], by omega, rfl⟩
      obtain ⟨states, hruns, hlength, hwithin⟩ := runs_bisect t significand hroom'
      have hturn : Halving.turn t significand ⟨position, 2 ^ n⟩ = .inl ⟨next, 2 ^ n >>> 1⟩ := by
        simp only [Halving.turn, if_neg hpos.ne', entry?_eq_some hinside, hnext]
      rw [hhalf, hbisect]
      refine ⟨⟨position, 2 ^ n⟩ :: states, .go hturn hruns, by rw [List.length_cons, hlength], ?_⟩
      rw [List.forall_mem_cons]
      exact ⟨fun _ => hinside, hwithin⟩

/-- **Counting and halving find the greatest position that is reached**, in every table whose entries
increase from zero, so it does not matter which of them a scale uses. Halving goes round as often
as the scale says and looks at places inside of the table only. -/
theorem search_isGreatest (hfirst : t.entry 0 = 0)
    (hincreasing : ∀ j k, j < k → k < 2 ^ t.scale → t.entry j < t.entry k) (significand : ℕ) :
    ∃ k, IsGreatest {k | k < 2 ^ t.scale ∧ t.entry k ≤ significand} k ∧
      t.countReached significand = k ∧
      (∃ states, Runs (Halving.turn t significand) ⟨0, t.entries.toList.length >>> 1⟩ states
          (some k) ∧
        states.length = t.scale + 1 ∧
        ∀ h ∈ states, h.step ≠ 0 → h.position + h.step < 2 ^ t.scale) ∧
      t.bisect significand t.scale 0 = k ∧
      t.position significand = k := by
  have hascending : t.Ascending := by
    refine ⟨hfirst, ?_⟩
    intro j k hjk hk
    rcases Nat.eq_or_lt_of_le hjk with rfl | hlt
    · exact le_rfl
    · exact (hincreasing j k hlt hk).le
  have hlast := bisect_zero_isLastReached hascending significand
  have hcount := countReached_eq hlast
  obtain ⟨states, hruns, hlength, hwithin⟩ := runs_bisect t significand
    (show 0 + 2 ^ t.scale ≤ 2 ^ t.scale from (Nat.zero_add _).le)
  refine ⟨t.bisect significand t.scale 0, ⟨⟨hlast.lt, hlast.reached _ le_rfl⟩, ?_⟩, hcount,
    ⟨states, ?_, hlength, hwithin⟩, rfl, ?_⟩
  · rintro k ⟨hk, hreached⟩
    exact (hlast.le_iff hk).mpr hreached
  · rwa [Vector.length_toList]
  · rw [position, hcount, ite_self]

/-- A number that is an entry of the table, at a scale that halves. -/
theorem search_isGreatest_entry :
    ∃ t : Table, t.scale = 4 ∧ t.entry 0 = 0 ∧
      (∀ j k, j < k → k < 2 ^ t.scale → t.entry j < t.entry k) ∧ t.entry 7 = 21 ∧
      t.countReached 21 = 7 ∧ t.bisect 21 4 0 = 7 ∧ t.position 21 = 7 ∧ t.position 20 = 6 := by
  obtain ⟨t, hscale, hentry⟩ : ∃ t : Table, t.scale = 4 ∧ ∀ k, k < 2 ^ 4 → t.entry k = 3 * k := by
    refine ⟨⟨4, Vector.ofFn fun k => 3 * k⟩, rfl, ?_⟩
    intro k hk
    rw [entry_eq_getElem _ hk, Vector.getElem_ofFn]
  have hfirst : t.entry 0 = 0 := hentry 0 (by decide)
  have hincreasing : ∀ j k, j < k → k < 2 ^ t.scale → t.entry j < t.entry k := by
    intro j k hjk hk
    rw [hscale] at hk
    rw [hentry j (hjk.trans hk), hentry k hk]
    omega
  have hgreatest : ∀ m last, last < 2 ^ 4 → 3 * last ≤ m → m < 3 * (last + 1) →
      IsGreatest {k | k < 2 ^ t.scale ∧ t.entry k ≤ m} last := by
    intro m last hlt hle hnext
    rw [hscale]
    refine ⟨⟨hlt, (hentry last hlt).trans_le hle⟩, ?_⟩
    rintro k ⟨hk, hreached⟩
    rw [hentry k hk] at hreached
    omega
  obtain ⟨k, hk, hcount, -, hbisect, hposition⟩ := search_isGreatest hfirst hincreasing 21
  obtain rfl := hk.unique (hgreatest 21 7 (by decide) (by decide) (by decide))
  obtain ⟨k', hk', -, -, -, hposition'⟩ := search_isGreatest hfirst hincreasing 20
  obtain rfl := hk'.unique (hgreatest 20 6 (by decide) (by decide) (by decide))
  rw [hscale] at hbisect
  exact ⟨t, hscale, hfirst, hincreasing, hentry 7 (by decide), hcount, hbisect, hposition,
    hposition'⟩

end ExponentialHistogram.Threshold.Table
