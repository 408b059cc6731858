/-
ExponentialHistogram.Proofs.Settings.Extraction — which settings a dictionary
holds.

Values stand for methods and numbers (`Value.IsMethod`, `Value.IsWorkers`,
`Value.IsNatural`), and a value that stands for nothing is not valid for its
setting. A dictionary holds the settings that its values stand for
(`extract_eq_ok_iff`). If it holds none, the error says which value is not valid
or which one is missing (`extract_eq_error`).
-/
import Mathlib
import ExponentialHistogram.Proofs.Loop
import ExponentialHistogram.Settings.Layers

namespace ExponentialHistogram.Settings

open Generator (Method)

/-! ## Valid values -/

def Value.IsMethod (v : Value) (m : Method) : Prop := v = .text m.name.toList

/-- A whole number of 64 bits. -/
def Value.IsNatural (v : Value) (n : ℕ) : Prop := v = .integer n ∧ n < 2 ^ 64

def Value.IsWorkers (v : Value) : Option ℕ → Prop
  | none => v = .empty
  | some n => v.IsNatural n ∧ 0 < n

/-- The value stands for something that the setting can be. -/
def Setting.IsValid (s : Setting) (v : Value) : Prop :=
  match s with
  | .method => ∃ m, v.IsMethod m
  | .workers => ∃ w, v.IsWorkers w
  | .interval => ∃ n, v.IsNatural n

namespace Value

variable {v : Value}

theorem method?_eq_some_iff {m : Method} : v.method? = some m ↔ v.IsMethod m := by
  have hne : Method.exact.name.toList ≠ Method.native.name.toList := by decide
  cases v with
  | text s =>
    simp only [method?, Settings.method?, IsMethod, text.injEq]
    split_ifs with hexact hnative
    · cases m <;> simp [hexact, hne]
    · cases m <;> simp [hnative, hne.symm]
    · cases m <;> simp [hexact, hnative]
  | _ => simp [method?, IsMethod]

theorem natural?_eq_some_iff {n : ℕ} : v.natural? = some n ↔ v.IsNatural n := by
  cases v with
  | integer k =>
    simp only [natural?, IsNatural, integer.injEq]
    split_ifs with h
    · rw [Option.some.injEq]
      omega
    · simp only [false_iff]
      omega
  | _ => simp [natural?, IsNatural]

theorem workers?_eq_some_iff {w : Option ℕ} : v.workers? = some w ↔ v.IsWorkers w := by
  by_cases hempty : v = .empty
  · subst hempty
    cases w <;> simp [workers?, IsWorkers, IsNatural]
  · rw [workers?]
    · cases w with
      | none => simp [IsWorkers, hempty]
      | some n => simp [IsWorkers, Option.filter_eq_some_iff, natural?_eq_some_iff]
    · exact hempty

theorem method?_eq_none_iff : v.method? = none ↔ ¬ Setting.method.IsValid v := by
  simp only [Option.eq_none_iff_forall_ne_some, Setting.IsValid, not_exists, ne_eq,
    method?_eq_some_iff]

theorem natural?_eq_none_iff : v.natural? = none ↔ ¬ Setting.interval.IsValid v := by
  simp only [Option.eq_none_iff_forall_ne_some, Setting.IsValid, not_exists, ne_eq,
    natural?_eq_some_iff]

theorem workers?_eq_none_iff : v.workers? = none ↔ ¬ Setting.workers.IsValid v := by
  simp only [Option.eq_none_iff_forall_ne_some, Setting.IsValid, not_exists, ne_eq,
    workers?_eq_some_iff]

end Value

/-! ## One setting -/

namespace Dictionary

variable {α : Type} {d : Dictionary} {s : Setting} {read? : Value → Option α}

theorem read_eq_ok_none_iff : d.read s read? = .ok none ↔ d.get? s.name.toList = none := by
  rw [read]
  cases d.get? s.name.toList with
  | none => simp
  | some v => cases hread : read? v <;> simp [hread]

theorem read_eq_ok_some_iff {a : α} :
    d.read s read? = .ok (some a) ↔ ∃ v, d.get? s.name.toList = some v ∧ read? v = some a := by
  rw [read]
  cases d.get? s.name.toList with
  | none => simp
  | some v => cases hread : read? v <;> simp [hread]

theorem read_eq_error_iff {e : ExtractError} : d.read s read? = .error e ↔
    ∃ v, d.get? s.name.toList = some v ∧ read? v = none ∧ .ofValue s v = e := by
  rw [read]
  cases d.get? s.name.toList with
  | none => simp
  | some v => cases hread : read? v <;> simp [hread]

end Dictionary

theorem require_eq_ok_iff {α : Type} {s : Setting} {value : Option α} {a : α} :
    require s value = .ok a ↔ value = some a := by
  cases value <;> simp [require]

theorem require_eq_error_iff {α : Type} {s : Setting} {value : Option α} {e : ExtractError} :
    require s value = .error e ↔ value = none ∧ .missing s = e := by
  cases value <;> simp [require]

/-! ## All settings -/

open Dictionary Value

variable {d : Dictionary} {settings : Settings} {e : ExtractError}

/-- **The settings of a dictionary** are what its values stand for. -/
theorem extract_eq_ok_iff : extract d = .ok settings ↔
    (∃ v, d.get? Setting.method.name.toList = some v ∧ v.IsMethod settings.method) ∧
    (∃ v, d.get? Setting.interval.name.toList = some v ∧ v.IsNatural settings.intervalSeconds) ∧
    (d.get? Setting.workers.name.toList = none ∧ settings.workers = none ∨
      ∃ v, d.get? Setting.workers.name.toList = some v ∧ v.IsWorkers settings.workers) := by
  simp only [extract, bind_eq_ok_iff, require_eq_ok_iff, ← method?_eq_some_iff,
    ← natural?_eq_some_iff, ← workers?_eq_some_iff, ← read_eq_ok_some_iff]
  -- A method and an interval have been read; only the workers may be missing.
  constructor
  · rintro ⟨_, hmethod, _, hinterval, workers, hworkers, m, rfl, n, rfl, hsettings⟩
    obtain rfl := Except.ok.inj hsettings
    refine ⟨hmethod, hinterval, ?_⟩
    cases workers with
    | none => exact Or.inl ⟨read_eq_ok_none_iff.mp hworkers, rfl⟩
    | some w => exact Or.inr hworkers
  · rintro ⟨hmethod, hinterval, ⟨hworkers, hnone⟩ | hworkers⟩
    · refine ⟨_, hmethod, _, hinterval, _, read_eq_ok_none_iff.mpr hworkers, _, rfl, _, rfl, ?_⟩
      rw [Option.getD_none, ← hnone]
      rfl
    · exact ⟨_, hmethod, _, hinterval, _, hworkers, _, rfl, _, rfl, rfl⟩

theorem isValid_of_extract (h : extract d = .ok settings) {s : Setting} {v : Value}
    (hget : d.get? s.name.toList = some v) : s.IsValid v := by
  obtain ⟨⟨v₁, hmethod, h₁⟩, ⟨v₂, hinterval, h₂⟩, hworkers⟩ := extract_eq_ok_iff.mp h
  cases s with
  | method =>
    obtain rfl := Option.some.inj (hmethod.symm.trans hget)
    exact ⟨_, h₁⟩
  | interval =>
    obtain rfl := Option.some.inj (hinterval.symm.trans hget)
    exact ⟨_, h₂⟩
  | workers =>
    rcases hworkers with ⟨hnone, -⟩ | ⟨v₃, hworkers, h₃⟩
    · exact absurd (hnone.symm.trans hget) (Option.some_ne_none v).symm
    · obtain rfl := Option.some.inj (hworkers.symm.trans hget)
      exact ⟨_, h₃⟩

/-- Only what a dictionary has for each setting matters. -/
theorem extract_congr {d' : Dictionary}
    (h : ∀ s : Setting, d.get? s.name.toList = d'.get? s.name.toList) : extract d = extract d' := by
  simp only [extract, Dictionary.read, h]

/-- **What an error says** is so. -/
theorem extract_eq_error (h : extract d = .error e) :
    (∃ s v, d.get? s.name.toList = some v ∧ ¬ s.IsValid v ∧ e = .ofValue s v) ∨
      ∃ s, s ≠ .workers ∧ d.get? s.name.toList = none ∧ e = .missing s := by
  simp only [extract, bind_eq_error_iff, require_eq_error_iff, read_eq_error_iff,
    method?_eq_none_iff, natural?_eq_none_iff, workers?_eq_none_iff] at h
  rcases h with ⟨v, hv, hinvalid, rfl⟩ | ⟨method, hmethod, h⟩
  · exact Or.inl ⟨.method, v, hv, hinvalid, rfl⟩
  rcases h with ⟨v, hv, hinvalid, rfl⟩ | ⟨interval, hinterval, h⟩
  · exact Or.inl ⟨.interval, v, hv, hinvalid, rfl⟩
  rcases h with ⟨v, hv, hinvalid, rfl⟩ | ⟨workers, -, h⟩
  · exact Or.inl ⟨.workers, v, hv, hinvalid, rfl⟩
  rcases h with ⟨rfl, rfl⟩ | ⟨m, -, h⟩
  · exact Or.inr ⟨.method, by decide, read_eq_ok_none_iff.mp hmethod, rfl⟩
  rcases h with ⟨rfl, rfl⟩ | ⟨n, -, h⟩
  · exact Or.inr ⟨.interval, by decide, read_eq_ok_none_iff.mp hinterval, rfl⟩
  · cases h

end ExponentialHistogram.Settings
