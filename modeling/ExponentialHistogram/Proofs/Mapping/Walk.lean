/-
ExponentialHistogram.Proofs.Mapping.Walk — the way of a walk.

A walk adjusts its candidate by one at a time, first upwards and then downwards,
and counts the adjustments of both directions together. The count is looked at
after an adjustment, so it is the sixty-fifth that is one too many. `Walker.turn`
is one turn of the two loops, and a walk is a run of it (`runs_seek`).

Every comparison is decided, so a turn depends only on which side of the threshold
the candidate is on (`turn_cases`). From below the walk can only rise, and where
it turns it has arrived; from above it turns at once and can only fall
(`Rising.turn`, `Falling.turn`). Either way the candidate is between the start
and the threshold, as far from the start as there were adjustments.
-/
import Mathlib
import ExponentialHistogram.Proofs.Loop
import ExponentialHistogram.Proofs.Mapping.Decision

namespace ExponentialHistogram.Threshold

variable {scale position threshold : ℕ}

/-! ## Turns of a walk -/

/-- Where a walk is. The adjustments are those of both directions. -/
structure Walker where
  descending : Bool
  candidate : ℕ
  adjustments : ℕ
deriving DecidableEq, Repr

namespace Walker

def start (estimate : ℕ) : Walker := ⟨false, estimate ||| 2 ^ 52, 0⟩

/-- The next comparison of a walk and what comes of it. -/
def turn (scale position : ℕ) (w : Walker) : Walker ⊕ Option ℕ :=
  if maxSteps < w.adjustments then .inr none
  else if w.descending then
    match attains? (w.candidate - 1) scale position with
    | none => .inr none
    | some true => .inl ⟨true, w.candidate - 1, w.adjustments + 1⟩
    | some false => .inr (some (w.candidate % 2 ^ 52))
  else
    match attains? w.candidate scale position with
    | none => .inr none
    | some true => .inl ⟨true, w.candidate, w.adjustments⟩
    | some false =>
      if w.candidate + 1 < 2 ^ 64 then .inl ⟨false, w.candidate + 1, w.adjustments + 1⟩
      else .inr none

variable {w w' : Walker}

/-- Too many adjustments end a walk, whatever it would do next. -/
theorem turn_of_maxSteps_lt (h : maxSteps < w.adjustments) : w.turn scale position = .inr none := by
  rw [turn, if_pos h]

theorem turn_descending (scale position candidate : ℕ) {adjustments : ℕ}
    (h : adjustments ≤ maxSteps) :
    turn scale position ⟨true, candidate, adjustments⟩ =
      match attains? (candidate - 1) scale position with
      | none => .inr none
      | some true => .inl ⟨true, candidate - 1, adjustments + 1⟩
      | some false => .inr (some (candidate % 2 ^ 52)) := by
  rw [turn, if_neg (Nat.not_lt.mpr h), if_pos rfl]

theorem turn_climbing (scale position candidate : ℕ) {adjustments : ℕ}
    (h : adjustments ≤ maxSteps) :
    turn scale position ⟨false, candidate, adjustments⟩ =
      match attains? candidate scale position with
      | none => .inr none
      | some true => .inl ⟨true, candidate, adjustments⟩
      | some false =>
        if candidate + 1 < 2 ^ 64 then .inl ⟨false, candidate + 1, adjustments + 1⟩
        else .inr none := by
  rw [turn, if_neg (Nat.not_lt.mpr h), if_neg Bool.false_ne_true]

/-! ## A walk is a run -/

theorem runs_descend : ∀ (steps candidate adjustments : ℕ), adjustments + steps = maxSteps →
    ∃ states, Runs (turn scale position) ⟨true, candidate, adjustments⟩ states
      ((descend? scale position steps candidate).map (· % 2 ^ 52))
  | steps, candidate, adjustments, hcount => by
      have hturn := turn_descending scale position candidate (Nat.le.intro hcount)
      unfold descend?
      cases hverdict : attains? (candidate - 1) scale position with
      | none =>
        rw [hverdict] at hturn
        exact ⟨_, .stop hturn⟩
      | some verdict =>
        rw [hverdict] at hturn
        cases verdict with
        | false => exact ⟨_, .stop hturn⟩
        | true =>
          cases steps with
          | zero => exact ⟨_, .go hturn (.stop (turn_of_maxSteps_lt (by simp only; omega)))⟩
          | succ steps =>
            obtain ⟨states, hrest⟩ := runs_descend steps (candidate - 1) (adjustments + 1) (by omega)
            exact ⟨_, .go hturn hrest⟩

theorem runs_climb : ∀ (steps candidate adjustments : ℕ), adjustments + steps = maxSteps →
    ∃ states, Runs (turn scale position) ⟨false, candidate, adjustments⟩ states
      ((climb? scale position steps candidate).bind fun stop =>
        (descend? scale position stop.2 stop.1).map (· % 2 ^ 52))
  | steps, candidate, adjustments, hcount => by
      have hturn := turn_climbing scale position candidate (Nat.le.intro hcount)
      unfold climb?
      cases hverdict : attains? candidate scale position with
      | none =>
        rw [hverdict] at hturn
        exact ⟨_, .stop hturn⟩
      | some verdict =>
        rw [hverdict] at hturn
        cases verdict with
        | true =>
          obtain ⟨states, hrest⟩ := runs_descend steps candidate adjustments hcount
          exact ⟨_, .go hturn hrest⟩
        | false =>
          by_cases hnext : candidate + 1 < 2 ^ 64
          · simp only [if_pos hnext] at hturn
            cases steps with
            | zero => exact ⟨_, .go hturn (.stop (turn_of_maxSteps_lt (by simp only; omega)))⟩
            | succ steps =>
              simp only [if_pos hnext]
              obtain ⟨states, hrest⟩ := runs_climb steps (candidate + 1) (adjustments + 1) (by omega)
              exact ⟨_, .go hturn hrest⟩
          · simp only [if_neg hnext] at hturn
            refine ⟨_, .stop ?_⟩
            rw [hturn]
            cases steps <;> simp [hnext]

/-- **A walk is a run of its turns**, with the same result. -/
theorem runs_seek (scale position estimate : ℕ) :
    ∃ states, Runs (turn scale position) (start estimate) states
      (seek? scale position estimate) := by
  obtain ⟨states, hruns⟩ := runs_climb maxSteps (estimate ||| 2 ^ 52) 0 (Nat.zero_add maxSteps)
  have hresult : seek? scale position estimate
      = (climb? scale position maxSteps (estimate ||| 2 ^ 52)).bind fun stop =>
        (descend? scale position stop.2 stop.1).map (· % 2 ^ 52) := by
    rw [seek?]
    simp only [Option.bind_eq_bind, Option.pure_def, Option.map_eq_bind]
    rfl
  exact ⟨states, hresult ▸ hruns⟩

/-! ## Which way a walk goes -/

section

variable (hscale : scale ≤ 20) (hposition : position < 2 ^ scale)
  (hthreshold : IsThreshold threshold scale position)
include hscale hposition hthreshold

/-- **What a turn can do**, by the side of the threshold that the candidate is on. -/
theorem turn_cases (hpos : 1 < w.candidate) (hlt : w.candidate < 2 ^ 53)
    (h : w.turn scale position = .inl w') :
    w.adjustments ≤ maxSteps ∧
      ((w.descending = false ∧ w.candidate < threshold ∧
          w' = ⟨false, w.candidate + 1, w.adjustments + 1⟩) ∨
        (w.descending = false ∧ threshold ≤ w.candidate ∧
          w' = ⟨true, w.candidate, w.adjustments⟩) ∨
        (w.descending = true ∧ threshold < w.candidate ∧
          w' = ⟨true, w.candidate - 1, w.adjustments + 1⟩)) := by
  have hverdict : ∀ n, 0 < n → n < 2 ^ 53 →
      attains? n scale position = some (decide (threshold ≤ n)) := by
    intro n hn hn'
    exact attains?_eq_of_isThreshold hscale hposition hthreshold hn (by omega)
  obtain ⟨descending, candidate, adjustments⟩ := w
  simp only at hpos hlt ⊢
  have hcount : adjustments ≤ maxSteps := by
    by_contra hmany
    rw [turn_of_maxSteps_lt (Nat.not_le.mp hmany)] at h
    cases h
  refine ⟨hcount, ?_⟩
  cases descending with
  | false =>
    rw [turn_climbing _ _ _ hcount, hverdict candidate (by omega) hlt] at h
    by_cases hle : threshold ≤ candidate
    · simp only [hle, decide_true] at h
      cases h
      exact .inr (.inl ⟨rfl, hle, rfl⟩)
    · simp only [hle, decide_false, if_pos (show candidate + 1 < 2 ^ 64 by omega)] at h
      cases h
      exact .inl ⟨rfl, by omega, rfl⟩
  | true =>
    rw [turn_descending _ _ _ hcount, hverdict (candidate - 1) (by omega) (by omega)] at h
    by_cases hle : threshold ≤ candidate - 1
    · simp only [hle, decide_true] at h
      cases h
      exact .inr (.inr ⟨rfl, by omega, rfl⟩)
    · simp only [hle, decide_false] at h
      cases h

end

/-- On the way up to the threshold, which is where the walk turns. -/
structure Rising (first threshold : ℕ) (w : Walker) : Prop where
  candidate_eq : w.candidate = first + w.adjustments
  candidate_le : w.candidate ≤ threshold
  arrived : w.descending = true → w.candidate = threshold
  adjustments_le : w.adjustments ≤ maxSteps + 1

/-- On the way down to the threshold. -/
structure Falling (first threshold : ℕ) (w : Walker) : Prop where
  candidate_add : w.candidate + w.adjustments = first
  le_candidate : threshold ≤ w.candidate
  adjustments_le : w.adjustments ≤ maxSteps + 1

section

variable (hscale : scale ≤ 20) (hposition : position < 2 ^ scale)
  (hthreshold : IsThreshold threshold scale position) {first : ℕ}
include hscale hposition hthreshold

theorem Rising.turn (hw : Rising first threshold w) (hfirst : 2 ^ 52 ≤ first)
    (h : w.turn scale position = .inl w') : Rising first threshold w' := by
  have hhigh := hthreshold.lt_two_pow (by omega) hposition
  obtain ⟨heq, hle, harrived, -⟩ := hw
  obtain ⟨hcount, ⟨-, hbelow, rfl⟩ | ⟨-, hreached, rfl⟩ | ⟨hdown, habove, -⟩⟩ :=
    turn_cases hscale hposition hthreshold (by omega) (by omega) h
  · exact ⟨by simp only; omega, hbelow, (nomatch ·), Nat.succ_le_succ hcount⟩
  · exact ⟨heq, hle, fun _ => le_antisymm hle hreached, Nat.le_succ_of_le hcount⟩
  · exact absurd (harrived hdown) habove.ne'

theorem Falling.turn (hw : Falling first threshold w) (hfirst : first < 2 ^ 53)
    (h : w.turn scale position = .inl w') : Falling first threshold w' := by
  have hlow := hthreshold.le_threshold
  obtain ⟨heq, hle, -⟩ := hw
  obtain ⟨hcount, ⟨-, hbelow, -⟩ | ⟨-, -, rfl⟩ | ⟨-, habove, rfl⟩⟩ :=
    turn_cases hscale hposition hthreshold (by omega) (by omega) h
  · exact absurd hle hbelow.not_ge
  · exact ⟨heq, hle, Nat.le_succ_of_le hcount⟩
  · exact ⟨by simp only; omega, by simp only; omega, Nat.succ_le_succ hcount⟩

/-- **A walk goes one way**, from its start on. -/
theorem rising_or_falling {estimate : ℕ} (hestimate : estimate < 2 ^ 52) {states : List Walker}
    {result : Option ℕ} (h : Runs (Walker.turn scale position) (start estimate) states result) :
    (∀ w ∈ states, Rising (2 ^ 52 + estimate) threshold w) ∨
      ∀ w ∈ states, Falling (2 ^ 52 + estimate) threshold w := by
  have hstart : start estimate = ⟨false, 2 ^ 52 + estimate, 0⟩ := by
    rw [start, or_implicitBit hestimate]
  rw [hstart] at h
  rcases le_total (2 ^ 52 + estimate) threshold with hbelow | habove
  · left
    refine h.forall_mem ⟨rfl, hbelow, (nomatch ·), Nat.zero_le _⟩ ?_
    intro w w' hw hturn
    exact hw.turn hscale hposition hthreshold (Nat.le_add_right _ _) hturn
  · right
    refine h.forall_mem ⟨rfl, habove, Nat.zero_le _⟩ ?_
    intro w w' hw hturn
    exact hw.turn hscale hposition hthreshold (by omega) hturn

end

end Walker

/-- **A walk goes straight to the threshold** and arrives if that is at most 64 away. It comes to an end
from every estimate; with the sixty-fifth adjustment it gives up. Until then every adjustment has
gone the same way, so the candidate is as far from the start as there were adjustments, and it has
never left the numbers with 53 bits. -/
theorem walk_straight (hscale : scale ≤ 20) (hposition : position < 2 ^ scale) :
    ∃ threshold : ℕ, threshold < 2 ^ 52 ∧ IsThreshold (2 ^ 52 + threshold) scale position ∧
      ∀ estimate : ℕ, estimate < 2 ^ 52 →
        (|(estimate : ℤ) - threshold| ≤ 64 →
          seek? scale position estimate = some threshold) ∧
        (64 < |(estimate : ℤ) - threshold| → seek? scale position estimate = none) ∧
        (∃ states, Runs (Walker.turn scale position) (.start estimate) states
          (seek? scale position estimate)) ∧
        ∀ states result, Runs (Walker.turn scale position) (.start estimate) states result →
          result = seek? scale position estimate ∧
          (∀ w ∈ states, w.adjustments ≤ 65 ∧ 2 ^ 52 ≤ w.candidate ∧ w.candidate < 2 ^ 53) ∧
          ((∀ w ∈ states, w.candidate = 2 ^ 52 + estimate + w.adjustments) ∨
            ∀ w ∈ states, w.candidate + w.adjustments = 2 ^ 52 + estimate) := by
  obtain ⟨least, hthreshold⟩ := exists_isThreshold scale position
  have hlow := hthreshold.le_threshold
  have hhigh := hthreshold.lt_two_pow (by omega) hposition
  obtain ⟨threshold, rfl⟩ := Nat.exists_eq_add_of_le hlow
  refine ⟨threshold, by omega, hthreshold, ?_⟩
  intro estimate hestimate
  have hreach : InReach (2 ^ 52 + threshold) (2 ^ 52 + estimate) ↔
      |(estimate : ℤ) - threshold| ≤ 64 := by
    rw [InReach, maxSteps, abs_le]
    omega
  have hseek : seek? scale position estimate
      = if |(estimate : ℤ) - threshold| ≤ 64 then some threshold else none := by
    rw [← toOption_seek, seek_eq hscale hposition hthreshold (by omega), or_implicitBit hestimate]
    simp only [hreach, Nat.add_sub_cancel_left]
    split <;> rfl
  obtain ⟨states, hruns⟩ := Walker.runs_seek scale position estimate
  refine ⟨?_, ?_, ⟨states, hruns⟩, ?_⟩
  · intro hnear
    rw [hseek, if_pos hnear]
  · intro hfar
    rw [hseek, if_neg (not_le.mpr hfar)]
  · intro states' result hruns'
    refine ⟨(hruns'.unique hruns).2, ?_⟩
    rcases Walker.rising_or_falling hscale hposition hthreshold hestimate hruns' with hup | hdown
    · refine ⟨?_, .inl fun w hw => (hup w hw).candidate_eq⟩
      intro w hw
      obtain ⟨heq, hle, -, hcount⟩ := hup w hw
      exact ⟨hcount, by omega, by omega⟩
    · refine ⟨?_, .inr fun w hw => (hdown w hw).candidate_add⟩
      intro w hw
      obtain ⟨heq, hle, hcount⟩ := hdown w hw
      exact ⟨hcount, by omega, by omega⟩

/-- The farthest estimates from which a walk arrives, and those next to them, from which it does not. -/
theorem walk_straight_sixtyFour :
    (12 ≤ 20 ∧ 1100 < 2 ^ 12) ∧
    seek? 12 1100 (0x3460b1b9fd712 - 64) = some 0x3460b1b9fd712 ∧
    seek? 12 1100 (0x3460b1b9fd712 + 64) = some 0x3460b1b9fd712 ∧
    seek? 12 1100 (0x3460b1b9fd712 - 65) = none ∧
    seek? 12 1100 (0x3460b1b9fd712 + 65) = none ∧
    ∃ states, Runs (Walker.turn 12 1100) (.start (0x3460b1b9fd712 - 65)) states none := by
  have hleast : IsThreshold (2 ^ 52 + 0x3460b1b9fd712) 12 1100 :=
    isThreshold_of_pred (by decide +kernel) (by decide +kernel)
  obtain ⟨threshold, -, hthreshold, hwalk⟩ :=
    walk_straight (show 12 ≤ 20 by decide) (show 1100 < 2 ^ 12 by decide)
  obtain rfl : threshold = 0x3460b1b9fd712 := Nat.add_left_cancel (hthreshold.unique hleast)
  obtain ⟨hbelow, -, -, -⟩ := hwalk (0x3460b1b9fd712 - 64) (by decide)
  obtain ⟨habove, -, -, -⟩ := hwalk (0x3460b1b9fd712 + 64) (by decide)
  obtain ⟨-, htooLow, hruns, -⟩ := hwalk (0x3460b1b9fd712 - 65) (by decide)
  obtain ⟨-, htooHigh, -, -⟩ := hwalk (0x3460b1b9fd712 + 65) (by decide)
  rw [htooLow (by decide)] at hruns
  exact ⟨by decide, hbelow (by decide), habove (by decide), htooLow (by decide),
    htooHigh (by decide), hruns⟩

end ExponentialHistogram.Threshold
