/-
ExponentialHistogram.Proofs.Threshold.History — tables handed out over any
history of requests.

A request may be interrupted by others: between looking into the cache and
deriving, and again before the derived table is published. So a `Call` is
taken apart into the steps that touch the cache at most once each, and a
`History` is any interleaving of the steps of any number of calls. Undisturbed
steps make up a request (`advance_advance_advance`).

`Call.Sound` says what a call may have in hand at each stage, and `Sound` adds
that the cache is sound. Both survive every step (`Sound.step`), so nothing
that is ever handed out depends on the order of the calls: it is the exact
table of its scale, of which there is only one (`Table.IsExact.eq`).

Estimates may differ from one derivation to the next. They decide whether a
table is found, never which.
-/
import Mathlib
import ExponentialHistogram.Proofs.Threshold.Cache
import ExponentialHistogram.Proofs.Threshold.Derivation

namespace ExponentialHistogram.Threshold

namespace Table

/-! ## Exact tables in the words of their entries -/

/-- The table has an entry for each position of the scale, they ascend from zero, and each is the
significand of the least number that attains its position. -/
structure HoldsThresholds (t : Table) (scale : Int) : Prop where
  scale_eq : (t.scale : Int) = scale
  length : t.entries.toList.length = 2 ^ scale.toNat
  first : t.entries.toList[0]? = some 0
  ascending : t.entries.toList.Pairwise (· < ·)
  attains : ∀ k entry, t.entries.toList[k]? = some entry →
    entry < 2 ^ 52 ∧ Attains (2 ^ 52 + entry) scale.toNat k ∧
      ¬ Attains (2 ^ 52 + entry - 1) scale.toNat k

variable {t u : Table}

theorem getElem_toList (t : Table) {k : Nat} (h : k < t.entries.toList.length) :
    k < 2 ^ t.scale ∧ t.entries.toList[k] = t.entry k := by
  rw [Vector.length_toList] at h
  exact ⟨h, by rw [Vector.getElem_toList, t.entry_eq_getElem h]⟩

/-- No two positions share a threshold. -/
theorem IsExact.entry_lt_entry (ht : t.IsExact) (hscale : t.scale ≤ 20) {j k : Nat} (hjk : j < k)
    (hk : k < 2 ^ t.scale) : t.entry j < t.entry k := by
  have hnext : Attains (2 ^ 52 + t.entry k) t.scale (j + 1) :=
    (ht.isThreshold k hk).attains.of_le hjk
  have hcount : 2 ^ (t.scale + 1) ≤ 2 ^ 21 := Nat.pow_le_pow_right (by decide) (by omega)
  have hle := (ht.isThreshold j (by omega)).least _ (hnext.pred (by omega))
  omega

theorem IsExact.holdsThresholds (ht : t.IsExact) {scale : Int} (hscale : (t.scale : Int) = scale)
    (hbound : t.scale ≤ 20) : t.HoldsThresholds scale where
  scale_eq := hscale
  length := by rw [Vector.length_toList, ← hscale, Int.toNat_natCast]
  first := by
    have hpos : 0 < t.entries.toList.length := by
      rw [Vector.length_toList]; exact Nat.two_pow_pos _
    rw [List.getElem?_eq_getElem hpos, (t.getElem_toList hpos).2, ht.ascending.first]
  ascending := by
    rw [List.pairwise_iff_getElem]
    intro j k hj hk hjk
    obtain ⟨hlt, hentry⟩ := t.getElem_toList hk
    rw [(t.getElem_toList hj).2, hentry]
    exact ht.entry_lt_entry hbound hjk hlt
  attains k entry h := by
    obtain ⟨hk, rfl⟩ := List.getElem?_eq_some_iff.mp h
    obtain ⟨hlt, hentry⟩ := t.getElem_toList hk
    have hthreshold := ht.isThreshold k hlt
    rw [← hscale, Int.toNat_natCast, hentry]
    refine ⟨ht.entry_lt k hlt, hthreshold.attains, ?_⟩
    rw [hthreshold.attains_iff]
    omega

/-- There is one exact table of a scale. -/
theorem IsExact.eq (ht : t.IsExact) (hu : u.IsExact) (hscale : t.scale = u.scale) : t = u := by
  have hentry : ∀ k, k < 2 ^ t.scale → t.entry k = u.entry k := by
    intro k hk
    have := (ht.isThreshold k hk).unique (hscale ▸ hu.isThreshold k (hscale ▸ hk))
    omega
  obtain ⟨s, entries⟩ := t
  obtain ⟨s', entries'⟩ := u
  obtain rfl : s = s' := hscale
  congr 1
  ext k hk
  have := hentry k hk
  rwa [entry_eq_getElem _ hk, entry_eq_getElem _ hk] at this

end Table

namespace Cache

/-! ## Calls and their steps -/

/-- How far a call has come. -/
inductive Progress where
  | asked
  /-- There was no table for the scale in the cache. -/
  | missed
  /-- A table has been derived and is not yet published. -/
  | derived (t : Table)
  | answered (answer : Except MappingError Table)

/-- A request for the table of a scale, under way or answered. -/
structure Call where
  scale : Int
  progress : Progress

/-- The next step of a call. Only publishing changes the cache. -/
def Call.advance (estimates : Estimates) (call : Call) (c : Cache) : Call × Cache :=
  match call.progress with
  | .asked =>
    match ScaleRange.fine.require call.scale with
    | .error e => (⟨call.scale, .answered (.error e)⟩, c)
    | .ok () =>
      match (Table.builtin? call.scale).or (c.find? call.scale) with
      | some t => (⟨call.scale, .answered (.ok t)⟩, c)
      | none => (⟨call.scale, .missed⟩, c)
  | .missed =>
    match Table.derive estimates call.scale with
    | .error e => (⟨call.scale, .answered (.error e)⟩, c)
    | .ok t => (⟨call.scale, .derived t⟩, c)
  | .derived t => (⟨call.scale, .answered (.ok (c.publish t).1)⟩, (c.publish t).2)
  | .answered _ => (call, c)

/-- **A request is a call whose steps nothing comes between.** -/
theorem advance_advance_advance (estimates : Estimates) (scale : Int) (c : Cache) :
    let first := Call.advance estimates ⟨scale, .asked⟩ c
    let second := first.1.advance estimates first.2
    second.1.advance estimates second.2
      = (⟨scale, .answered (c.request estimates scale).1⟩, (c.request estimates scale).2) := by
  simp only [Call.advance, request]
  cases ScaleRange.fine.require scale with
  | error e => rfl
  | ok _ =>
    cases Table.builtin? scale with
    | some t => rfl
    | none =>
      cases c.find? scale with
      | some t => simp only [Option.none_or]
      | none =>
        simp only [Option.none_or]
        cases Table.derive estimates scale with
        | error e => rfl
        | ok t => rfl

/-- What has been asked for so far, and the cache. -/
structure History where
  cache : Cache
  calls : List Call

/-- What may happen next: a new call, or a step of one that has been made. Each step may bring
estimates of its own. -/
inductive Event where
  | ask (scale : Int)
  | advance (call : Nat) (estimates : Estimates)

namespace History

def start : History := ⟨∅, []⟩

def step (h : History) : Event → History
  | .ask scale => ⟨h.cache, h.calls ++ [⟨scale, .asked⟩]⟩
  | .advance i estimates =>
    match h.calls[i]? with
    | none => h
    | some call =>
      let (call, cache) := call.advance estimates h.cache
      ⟨cache, h.calls.set i call⟩

/-- The state after the events, from an empty cache. -/
def after (events : List Event) : History := events.foldl step start

end History

/-! ## What a call may have in hand -/

/-- A table in hand is the exact one of the scale, and an error has its reason. -/
def Call.Sound (call : Call) : Prop :=
  match call.progress with
  | .asked => True
  | .missed => call.scale ∈ ScaleRange.fine
  | .derived t | .answered (.ok t) =>
    call.scale ∈ ScaleRange.fine ∧ (t.scale : Int) = call.scale ∧ t.IsExact
  | .answered (.error e) =>
    call.scale ∉ ScaleRange.fine ∧ e = .scaleOutOfRange call.scale ScaleRange.fine ∨
      call.scale ∈ ScaleRange.fine ∧ ∃ (estimates : Estimates) (k : Nat),
        GivesUpFirst estimates call.scale.toNat k ∧ e = .undecided call.scale k

theorem require_cases (r : ScaleRange) (scale : Int) :
    scale ∈ r ∧ r.require scale = .ok () ∨
      scale ∉ r ∧ r.require scale = .error (.scaleOutOfRange scale r) := by
  unfold ScaleRange.require
  by_cases h : scale ∈ r
  · exact Or.inl ⟨h, if_pos h⟩
  · exact Or.inr ⟨h, if_neg h⟩

/-- One step of a call, on a sound cache. -/
theorem Call.Sound.advance {call : Call} (h : call.Sound) {c : Cache} (hc : c.Sound)
    (estimates : Estimates) :
    (call.advance estimates c).1.Sound ∧ (call.advance estimates c).2.Sound := by
  obtain ⟨scale, progress⟩ := call
  cases progress with
  | asked =>
    rcases require_cases ScaleRange.fine scale with ⟨hmem, hrequire⟩ | ⟨hmem, hrequire⟩
    · simp only [Call.advance, hrequire]
      cases hbuiltin : Table.builtin? scale with
      | some t => exact ⟨⟨hmem, Table.isExact_of_builtin? hbuiltin⟩, hc⟩
      | none =>
        cases hkept : c.find? scale with
        | some t =>
          simp only [Option.none_or]
          exact ⟨⟨hmem, hc.find? hkept⟩, hc⟩
        | none =>
          simp only [Option.none_or]
          exact ⟨hmem, hc⟩
    · simp only [Call.advance, hrequire]
      exact ⟨Or.inl ⟨hmem, rfl⟩, hc⟩
  | missed =>
    have hmem : scale ∈ ScaleRange.fine := h
    simp only [Call.advance]
    rcases derive_outcome estimates hmem with ⟨t, hderive, -, -⟩ | ⟨k, hfirst, hderive⟩
    · simp only [hderive]
      exact ⟨Table.isExact_of_derive hderive, hc⟩
    · simp only [hderive]
      exact ⟨Or.inr ⟨hmem, estimates, k, hfirst, rfl⟩, hc⟩
  | derived t =>
    obtain ⟨hmem, hscale, hexact⟩ : scale ∈ ScaleRange.fine ∧ (t.scale : Int) = scale ∧ t.IsExact :=
      h
    obtain ⟨hpscale, hpexact, hsound⟩ := hc.publish hexact
    simp only [Call.advance]
    exact ⟨⟨hmem, hpscale ▸ hscale, hpexact⟩, hsound⟩
  | answered answer => exact ⟨h, hc⟩

/-! ## Histories -/

namespace History

/-- The cache is sound and so is every call. -/
structure Sound (h : History) : Prop where
  cache : h.cache.Sound
  calls : ∀ call ∈ h.calls, call.Sound

theorem step_advance {h : History} {i : Nat} {call : Call} (hi : h.calls[i]? = some call)
    (estimates : Estimates) :
    h.step (.advance i estimates) =
      ⟨(call.advance estimates h.cache).2, h.calls.set i (call.advance estimates h.cache).1⟩ := by
  simp only [History.step, hi]

theorem Sound.step {h : History} (hs : h.Sound) (event : Event) : (h.step event).Sound := by
  cases event with
  | ask scale =>
    refine ⟨hs.cache, ?_⟩
    intro call hcall
    rcases List.mem_append.mp hcall with hold | hnew
    · exact hs.calls call hold
    · rw [List.mem_singleton.mp hnew]
      trivial
  | advance i estimates =>
    cases hi : h.calls[i]? with
    | none =>
      simp only [History.step, hi]
      exact hs
    | some call =>
      obtain ⟨hcall, hcache⟩ :=
        (hs.calls call (List.mem_of_getElem? hi)).advance hs.cache estimates
      rw [step_advance hi]
      refine ⟨hcache, ?_⟩
      intro other hother
      rcases List.mem_or_eq_of_mem_set hother with hold | heq
      · exact hs.calls other hold
      · rw [heq]
        exact hcall

/-- **Every history is sound**, whatever was asked for and in whatever order the steps came. -/
theorem sound_after (events : List Event) : (after events).Sound := by
  have hrun : ∀ (events : List Event) (h : History), h.Sound → (events.foldl step h).Sound := by
    intro events
    induction events with
    | nil => intro h hs; exact hs
    | cons event events ih => intro h hs; exact ih _ (hs.step event)
  exact hrun events start ⟨sound_empty, fun call hcall => by cases hcall⟩

/-- An answered call, read off its soundness. -/
theorem Sound.answer {h : History} (hs : h.Sound) {call : Call} (hcall : call ∈ h.calls)
    {answer : Except MappingError Table} (hanswer : call.progress = .answered answer) :
    (call.scale ∉ ScaleRange.fine ∧ answer = .error (.scaleOutOfRange call.scale ScaleRange.fine)) ∨
    (call.scale ∈ ScaleRange.fine ∧ (∃ k, answer = .error (.undecided call.scale k))) ∨
    (call.scale ∈ ScaleRange.fine ∧
      ∃ t, answer = .ok t ∧ (t.scale : Int) = call.scale ∧ t.IsExact) := by
  have hsound := hs.calls call hcall
  simp only [Call.Sound, hanswer] at hsound
  cases answer with
  | error e =>
    rcases hsound with ⟨hmem, rfl⟩ | ⟨hmem, estimates, k, -, rfl⟩
    · exact Or.inl ⟨hmem, rfl⟩
    · exact Or.inr (Or.inl ⟨hmem, k, rfl⟩)
  | ok t =>
    obtain ⟨hmem, hscale, hexact⟩ := hsound
    exact Or.inr (Or.inr ⟨hmem, t, rfl, hscale, hexact⟩)

/-- **Every table that is handed out is the exact one.** Over any interleaving of any calls: a call
fails for its scale exactly if that lies outside of the range, and otherwise gets a table of
thresholds or a position that could not be decided; calls for one scale get the same table; a slot
is empty or holds the table of its own scale; and a derivation that fails changes nothing in the
cache. -/
theorem answers_exact (events : List Event) :
    (∀ call ∈ (after events).calls, ∀ answer, call.progress = .answered answer →
      (call.scale ∉ ScaleRange.fine ↔
        answer = .error (.scaleOutOfRange call.scale ScaleRange.fine)) ∧
      (call.scale ∈ ScaleRange.fine ↔
        (∃ t, answer = .ok t) ∨ ∃ k, answer = .error (.undecided call.scale k)) ∧
      ∀ t, answer = .ok t → t.HoldsThresholds call.scale) ∧
    (∀ call ∈ (after events).calls, ∀ other ∈ (after events).calls, call.scale = other.scale →
      ∀ t u, call.progress = .answered (.ok t) → other.progress = .answered (.ok u) → t = u) ∧
    (∀ slot : Fin 10, (after events).cache.slots.get slot = none ∨
      ∃ t, (after events).cache.slots.get slot = some t ∧ t.HoldsThresholds (slot.val + 11)) ∧
    ∀ (i : Nat) (call : Call) (estimates : Estimates) (e : MappingError),
      (after events).calls[i]? = some call → call.progress = .missed →
        Table.derive estimates call.scale = .error e →
          ((after events).step (.advance i estimates)).cache = (after events).cache := by
  have hs := sound_after events
  refine ⟨?_, ?_, ?_, ?_⟩
  · intro call hcall answer hanswer
    rcases hs.answer hcall hanswer with
      ⟨hmem, rfl⟩ | ⟨hmem, k, rfl⟩ | ⟨hmem, t, rfl, hscale, hexact⟩
    · simp [hmem]
    · simp [hmem]
    · have hbound : 1 ≤ call.scale ∧ call.scale ≤ 20 := hmem
      have hholds := hexact.holdsThresholds hscale (by omega)
      simp [hmem, hholds]
  · intro call hcall other hother hsame t u ht hu
    have htsound := hs.calls call hcall
    have husound := hs.calls other hother
    simp only [Call.Sound, ht] at htsound
    simp only [Call.Sound, hu] at husound
    obtain ⟨-, htscale, htexact⟩ := htsound
    obtain ⟨-, huscale, huexact⟩ := husound
    exact htexact.eq huexact (by omega)
  · intro slot
    cases hslot : (after events).cache.slots.get slot with
    | none => exact Or.inl rfl
    | some t =>
      obtain ⟨hscale, hexact⟩ := hs.cache slot t hslot
      exact Or.inr ⟨t, rfl, hexact.holdsThresholds (by omega) (by omega)⟩
  · intro i call estimates e hi hmissed hderive
    rw [step_advance hi]
    simp only [Call.advance, hmissed, hderive]

/-- Four calls whose steps are mixed: a built-in scale, one that is out of range, and two first uses
of scale 11. -/
def mixedEvents (estimates : Estimates) : List Event :=
  [.ask 3, .ask 11, .advance 1 estimates, .ask 21, .ask 11, .advance 3 estimates,
    .advance 0 estimates, .advance 2 estimates, .advance 1 estimates]

theorem calls_after_mixedEvents {estimates : Estimates} {e : MappingError} {t : Table}
    (hderive : Table.derive estimates 11 = .error e) (ht : Table.builtin? 3 = some t) :
    (after (mixedEvents estimates)).calls =
      [⟨3, .answered (.ok t)⟩, ⟨11, .answered (.error e)⟩,
        ⟨21, .answered (.error (.scaleOutOfRange 21 ScaleRange.fine))⟩, ⟨11, .missed⟩] := by
  have hinside : ScaleRange.fine.require 3 = .ok () := rfl
  have hfirst : ScaleRange.fine.require 11 = .ok () := rfl
  have houtside : ScaleRange.fine.require 21 = .error (.scaleOutOfRange 21 ScaleRange.fine) := rfl
  have hnone : (Table.builtin? 11).or ((∅ : Cache).find? 11) = none := rfl
  simp [after, mixedEvents, start, step, Call.advance, hinside, hfirst, houtside, hnone, ht,
    hderive]

/-- With estimates that lead nowhere. -/
theorem answers_exact_mixedEvents :
    ∃ t : Table, t.HoldsThresholds 3 ∧
      (after (mixedEvents (linearEstimates 0))).calls =
        [⟨3, .answered (.ok t)⟩, ⟨11, .answered (.error (.undecided 11 1))⟩,
          ⟨21, .answered (.error (.scaleOutOfRange 21 ScaleRange.fine))⟩, ⟨11, .missed⟩] ∧
      (21 : Int) ∉ ScaleRange.fine ∧
      Table.derive (linearEstimates 0) 11 = .error (.undecided 11 1) ∧
      ((after (mixedEvents (linearEstimates 0))).step (.advance 3 (linearEstimates 0))).cache
        = (after (mixedEvents (linearEstimates 0))).cache := by
  have hderive : Table.derive (linearEstimates 0) 11 = .error (.undecided 11 1) := by
    decide +kernel
  obtain ⟨t, ht⟩ : ∃ t, Table.builtin? 3 = some t := ⟨_, rfl⟩
  have hcalls := calls_after_mixedEvents hderive ht
  obtain ⟨hanswers, -, -, hfails⟩ := answers_exact (mixedEvents (linearEstimates 0))
  have hcall : (⟨3, .answered (.ok t)⟩ : Call) ∈
      (after (mixedEvents (linearEstimates 0))).calls := by
    rw [hcalls]; exact List.mem_cons_self
  have hmissed : (after (mixedEvents (linearEstimates 0))).calls[3]? = some ⟨11, .missed⟩ := by
    rw [hcalls]; rfl
  obtain ⟨-, -, hholds⟩ := hanswers _ hcall (.ok t) rfl
  exact ⟨t, hholds t rfl, hcalls, by decide, hderive,
    hfails 3 _ (linearEstimates 0) _ hmissed rfl hderive⟩

end History

end Cache

end ExponentialHistogram.Threshold
