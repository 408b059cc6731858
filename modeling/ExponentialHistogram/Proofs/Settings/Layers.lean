/-
ExponentialHistogram.Proofs.Settings.Layers — settings are layered one by one.

The defaults, the environment and the command line are laid one over the other as
dictionaries. For each setting there comes out the value of its option, else that
of its variable, else the default (`get?_layers`): a layer has no entry for what it
leaves open, and only tables are joined. So the settings are chosen one by one
(`IsLayered`). There are none if a setting that is left open has a variable that is
not valid, and for no other reason (`settings_layered`). It does not matter how
the texts of variables are read.

Reading them is done for all variables at once. A text whose reading is stopped
ends the loading whether or not anything depends on it (`load_eq_unreadable_iff`).
-/
import Mathlib
import ExponentialHistogram.Proofs.Settings.CommandLine
import ExponentialHistogram.Proofs.Settings.Environment
import ExponentialHistogram.Proofs.Settings.Extraction

namespace ExponentialHistogram.Settings

open Generator (Method)

/-- The value of a setting is that of its option. Without one it is what the value of its variable
stands for, and without a variable it is the default. -/
def Chosen {α : Type} (option : Option α) (value : Option Value) (StandsFor : Value → α → Prop)
    (default a : α) : Prop :=
  match option, value with
  | some b, _ => a = b
  | none, some v => StandsFor v a
  | none, none => a = default

/-- The settings are chosen one by one. -/
structure IsLayered (parse : List Char → Value) (o : Options) (environment : List (String × String))
    (settings : Settings) : Prop where
  method : Chosen o.method (settingValue? parse .method environment) Value.IsMethod .exact
    settings.method
  workers : Chosen (o.workers.map some) (settingValue? parse .workers environment) Value.IsWorkers
    none settings.workers
  interval : Chosen o.interval (settingValue? parse .interval environment) Value.IsNatural 60
    settings.intervalSeconds

variable {o : Options} {parts : List Part} {environment : List (String × String)} {s : Setting}
  {settings : Settings} {v : Value} {parse : List Char → Value}

/-! ## Values that come from settings -/

theorem Value.isMethod_ofMethod_iff {m m' : Method} : (ofMethod m).IsMethod m' ↔ m' = m := by
  cases m <;> cases m' <;> simp [ofMethod, IsMethod] <;> decide

theorem Value.isNatural_ofNatural_iff {n k : ℕ} (h : n < 2 ^ 64) :
    (ofNatural n).IsNatural k ↔ k = n := by
  rw [ofNatural, IsNatural, integer.injEq]
  omega

/-- The numbers of workers that a command line can set. -/
theorem Value.isWorkers_ofWorkers_iff {w w' : Option ℕ}
    (h : ∀ n, w = some n → 0 < n ∧ n < 2 ^ 64) : (ofWorkers w).IsWorkers w' ↔ w' = w := by
  cases w with
  | none => cases w' <;> simp [ofWorkers, IsWorkers, IsNatural]
  | some n =>
    obtain ⟨hpos, hlt⟩ := h n rfl
    cases w' with
    | none => simp [ofWorkers, ofNatural, IsWorkers]
    | some k =>
      rw [ofWorkers, IsWorkers, isNatural_ofNatural_iff hlt, Option.some.injEq]
      omega

/-- The numbers are those that a command line can set. -/
structure Options.IsProper (o : Options) : Prop where
  workers : ∀ n, o.workers = some n → 0 < n ∧ n < 2 ^ 64
  interval : ∀ n, o.interval = some n → n < 2 ^ 64

theorem natural?_lt {cs : List Char} {n : ℕ} (h : natural? cs = some n) : n < 2 ^ 64 := by
  unfold natural? at h
  obtain ⟨m, -, hm⟩ := Option.bind_eq_some_iff.mp h
  split_ifs at hm with hlt
  exact Option.some.inj hm ▸ hlt

/-- What is not left open has a part that spells it. -/
theorem Says.spells_of_not_leavesOpen (h : Says parts o) {a : Argument} (ha : ¬ o.LeavesOpen a) :
    ∃ text, o.Spells text a := by
  obtain ⟨p, hp, rfl⟩ := List.mem_map.mp (by_contra fun hnot => ha (h.leavesOpen a hnot))
  exact ⟨_, h.spells p hp⟩

theorem Says.isProper (h : Says parts o) : o.IsProper where
  workers n hn := by
    have hset : ¬ o.LeavesOpen .workers := by simp [Options.LeavesOpen, hn]
    obtain ⟨text, k, hk, hpos, hworkers⟩ := h.spells_of_not_leavesOpen hset
    obtain rfl := Option.some.inj (hworkers.symm.trans hn)
    exact ⟨hpos, natural?_lt hk⟩
  interval n hn := by
    have hset : ¬ o.LeavesOpen .interval := by simp [Options.LeavesOpen, hn]
    obtain ⟨text, k, hk, hinterval⟩ := h.spells_of_not_leavesOpen hset
    obtain rfl := Option.some.inj (hinterval.symm.trans hn)
    exact natural?_lt hk

theorem leavesOpen_iff : o.LeavesOpen s.argument ↔ o.value? s = none := by
  cases s <;> simp [Options.LeavesOpen, Setting.argument, Options.value?]

/-- The options stand for themselves. -/
theorem isValid_of_value? (ho : o.IsProper) (h : o.value? s = some v) : s.IsValid v := by
  cases s with
  | method =>
    obtain ⟨m, -, rfl⟩ := Option.map_eq_some_iff.mp h
    exact ⟨m, Value.isMethod_ofMethod_iff.mpr rfl⟩
  | workers =>
    obtain ⟨n, hn, rfl⟩ := Option.map_eq_some_iff.mp h
    refine ⟨some n, (Value.isWorkers_ofWorkers_iff fun k hk => ?_).mpr rfl⟩
    exact ho.workers k (hn.trans hk)
  | interval =>
    obtain ⟨n, hn, rfl⟩ := Option.map_eq_some_iff.mp h
    exact ⟨n, (Value.isNatural_ofNatural_iff (ho.interval n hn)).mpr rfl⟩

theorem isValid_defaults (s : Setting) : s.IsValid (defaults.value s) := by
  cases s with
  | method => exact ⟨.exact, rfl⟩
  | workers => exact ⟨none, rfl⟩
  | interval => exact ⟨60, rfl, by decide⟩

/-! ## The precedence -/

theorem lookup_filterMap_name (value? : Setting → Option Value) (s : Setting)
    (among : List Setting) :
    (among.filterMap fun t => (value? t).map (t.name.toList, ·)).lookup s.name.toList
      = if s ∈ among then value? s else none := by
  induction among with
  | nil => rfl
  | cons t among ih =>
    by_cases hst : s = t
    · subst hst
      cases hvalue : value? s <;> simp [hvalue, ih]
    · have hname : (s.name.toList == t.name.toList) = false :=
        beq_eq_false_iff_ne.mpr fun h => hst (Setting.name_injective h)
      cases hvalue : value? t <;> simp [List.lookup_cons, hvalue, hname, hst, ih]

/-- Each setting is found under its name. -/
theorem get?_ofSettings (value? : Setting → Option Value) (s : Setting) :
    (Dictionary.ofSettings value?).get? s.name.toList = value? s := by
  have hmem : s ∈ Setting.all := by cases s <;> decide
  rw [Dictionary.ofSettings, Dictionary.get?, lookup_filterMap_name, if_pos hmem]

theorem value_ne_table (settings : Settings) (s : Setting) (names : List (List Char)) :
    settings.value s ≠ .table names := by
  cases s with
  | workers =>
    rw [value]
    cases settings.workers <;> exact Value.noConfusion
  | _ => exact Value.noConfusion

/-- No option is a table. -/
theorem value?_ne_table (h : o.value? s = some v) (names : List (List Char)) : v ≠ .table names := by
  cases s <;> obtain ⟨a, -, rfl⟩ := Option.map_eq_some_iff.mp h <;> exact Value.noConfusion

/-- **An option counts before a variable, and that before a default**, setting by setting. -/
theorem get?_layers (o : Options) (environment : Dictionary) (s : Setting) :
    ((defaults.dictionary.merge environment).merge o.dictionary).get? s.name.toList
      = some ((o.value? s).getD ((environment.get? s.name.toList).getD (defaults.value s))) := by
  rw [Dictionary.get?_merge, Dictionary.get?_merge, dictionary, Options.dictionary, get?_ofSettings,
    get?_ofSettings]
  -- Neither the default below nor the option above is a table, so nothing is joined.
  have hbelow : Option.merge Value.overlay (some (defaults.value s))
      (environment.get? s.name.toList)
        = some ((environment.get? s.name.toList).getD (defaults.value s)) := by
    cases environment.get? s.name.toList with
    | none => rfl
    | some w => exact congrArg some (Value.overlay_of_left (value_ne_table defaults s) w)
  rw [hbelow]
  cases hvalue : o.value? s with
  | none => rfl
  | some v => exact congrArg some (Value.overlay_of_right (value?_ne_table hvalue) _)

/-- The same, where the environment is flat. -/
theorem get?_layers_ofEnvironment (hflat : IsFlat environment) (s : Setting) :
    ((defaults.dictionary.merge (.ofEnvironment parse environment)).merge o.dictionary).get?
        s.name.toList
      = some ((o.value? s).getD
          ((settingValue? parse s environment).getD (defaults.value s))) := by
  rw [get?_layers, get?_ofEnvironment parse hflat]

/-! ## All settings -/

/-- What stands for a setting after all stands for what is chosen. -/
theorem standsFor_iff_chosen {α : Type} {option : Option α} {value : Option Value}
    {StandsFor : Value → α → Prop} {toValue : α → Value} {default a : α}
    (hoption : ∀ b, option = some b → (StandsFor (toValue b) a ↔ a = b))
    (hdefault : StandsFor (toValue default) a ↔ a = default) :
    StandsFor ((option.map toValue).getD (value.getD (toValue default))) a ↔
      Chosen option value StandsFor default a := by
  cases option with
  | some b => exact hoption b rfl
  | none =>
    cases value with
    | some v => exact Iff.rfl
    | none => exact hdefault

section

variable {value : Option Value}

theorem isMethod_iff_chosen {m : Method} :
    ((o.value? .method).getD (value.getD (defaults.value .method))).IsMethod m ↔
      Chosen o.method value Value.IsMethod .exact m :=
  standsFor_iff_chosen (fun _ _ => Value.isMethod_ofMethod_iff) Value.isMethod_ofMethod_iff

theorem isWorkers_iff_chosen (ho : o.IsProper) {w : Option ℕ} :
    ((o.value? .workers).getD (value.getD (defaults.value .workers))).IsWorkers w ↔
      Chosen (o.workers.map some) value Value.IsWorkers none w := by
  have hvalue : o.value? .workers = (o.workers.map some).map Value.ofWorkers := by
    rw [Option.map_map]
    rfl
  have hdefault : (Value.ofWorkers none).IsWorkers w ↔ w = none :=
    Value.isWorkers_ofWorkers_iff (by simp)
  rw [hvalue]
  refine standsFor_iff_chosen (fun b hb => Value.isWorkers_ofWorkers_iff fun n hn => ?_) hdefault
  obtain ⟨k, hk, rfl⟩ := Option.map_eq_some_iff.mp hb
  exact ho.workers n (hk.trans hn)

theorem isNatural_iff_chosen (ho : o.IsProper) {n : ℕ} :
    ((o.value? .interval).getD (value.getD (defaults.value .interval))).IsNatural n ↔
      Chosen o.interval value Value.IsNatural 60 n :=
  standsFor_iff_chosen (fun k hk => Value.isNatural_ofNatural_iff (ho.interval k hk))
    (Value.isNatural_ofNatural_iff (by decide))

end

/-- **The settings that the layers hold are those chosen one by one.** -/
theorem layered_eq_ok_iff (ho : o.IsProper) (hflat : IsFlat environment) :
    layered o (.ofEnvironment parse environment) = .ok settings ↔
      IsLayered parse o environment settings := by
  rw [layered, extract_eq_ok_iff]
  simp only [get?_layers_ofEnvironment hflat, Option.some.injEq, exists_eq_left', reduceCtorEq,
    false_and, false_or, isMethod_iff_chosen, isWorkers_iff_chosen ho, isNatural_iff_chosen ho]
  exact ⟨fun h => ⟨h.1, h.2.2, h.2.1⟩, fun h => ⟨h.method, h.interval, h.workers⟩⟩

/-- An error is about a variable that is not valid, and no option hides it. -/
theorem exists_of_layered_eq_error (ho : o.IsProper) (hflat : IsFlat environment) {e : ExtractError}
    (h : layered o (.ofEnvironment parse environment) = .error e) :
    ∃ s v, o.LeavesOpen s.argument ∧ settingValue? parse s environment = some v ∧
      ¬ s.IsValid v ∧ e = .ofValue s v := by
  rcases extract_eq_error h with ⟨s, v, hget, hinvalid, rfl⟩ | ⟨s, -, hget, -⟩
  · rw [get?_layers_ofEnvironment hflat, Option.some.injEq] at hget
    cases hoption : o.value? s with
    | some w =>
      rw [hoption, Option.getD_some] at hget
      exact absurd (isValid_of_value? ho (hget ▸ hoption)) hinvalid
    | none =>
      rw [hoption, Option.getD_none] at hget
      cases hvalue : settingValue? parse s environment with
      | none =>
        rw [hvalue, Option.getD_none] at hget
        exact absurd (hget ▸ isValid_defaults s) hinvalid
      | some w =>
        rw [hvalue, Option.getD_some] at hget
        obtain rfl := hget
        exact ⟨s, w, leavesOpen_iff.mpr hoption, hvalue, hinvalid, rfl⟩
  · -- No setting is missing, for each of them has a default.
    rw [get?_layers_ofEnvironment hflat] at hget
    cases hget

/-- **There are no settings** exactly if an option leaves a setting open whose variable is not
valid. -/
theorem layered_eq_error_iff (ho : o.IsProper) (hflat : IsFlat environment) :
    (∃ e, layered o (.ofEnvironment parse environment) = .error e) ↔
      ∃ s v, o.LeavesOpen s.argument ∧ settingValue? parse s environment = some v ∧
        ¬ s.IsValid v := by
  constructor
  · rintro ⟨e, he⟩
    obtain ⟨s, v, hopen, hvalue, hinvalid, -⟩ := exists_of_layered_eq_error ho hflat he
    exact ⟨s, v, hopen, hvalue, hinvalid⟩
  · rintro ⟨s, v, hopen, hvalue, hinvalid⟩
    cases hlayered : layered o (.ofEnvironment parse environment) with
    | error e => exact ⟨e, rfl⟩
    | ok settings =>
      refine absurd (isValid_of_extract hlayered ?_) hinvalid
      rw [get?_layers_ofEnvironment hflat, leavesOpen_iff.mp hopen, hvalue]
      rfl

/-- Only the variables of settings that are left open matter. -/
theorem layered_congr {environment' : List (String × String)} (hflat : IsFlat environment)
    (hflat' : IsFlat environment')
    (h : ∀ s : Setting, o.LeavesOpen s.argument →
      settingText? s environment' = settingText? s environment) :
    layered o (.ofEnvironment parse environment') = layered o (.ofEnvironment parse environment) := by
  refine extract_congr fun s => ?_
  rw [get?_layers_ofEnvironment hflat, get?_layers_ofEnvironment hflat']
  cases hoption : o.value? s with
  | some v => rfl
  | none => rw [settingValue?, settingValue?, h s (leavesOpen_iff.mpr hoption)]

/-! ## Loading -/

theorem load_of_isReadable (h : IsReadable environment) : load o environment
    = (layered o (.ofEnvironment Value.ofText environment)).mapError .invalid := by
  rw [load, if_pos (isReadable_iff.mpr h)]

/-- **What can stop the reading** is a text without a value, behind the stem. -/
theorem load_eq_unreadable_iff :
    load o environment = .error .unreadable ↔ ¬ IsReadable environment := by
  rw [load, ← isReadable_iff]
  split_ifs with h
  · cases layered o (.ofEnvironment Value.ofText environment) <;> simp [Except.mapError, h]
  · simp [h]

/-- A letter with an accent in front of an escape, in a variable that an option hides. -/
example : load ⟨2, some .exact, none, none⟩ [("EXPO_TABLE_GEN_METHOD", "\"é\\n\"")]
    = .error .unreadable := by
  decide +kernel

/-- **Settings are layered one by one.** However a command line is spelled, it is read as what it
says, and however the texts of variables are read, the settings under it are chosen one by one. There
are none exactly if a setting that is left open has a variable that is not valid. Variables that are
hidden or of no concern do not matter. This is how settings are loaded where all texts behind the
stem have a value. -/
theorem settings_layered (parse : List Char → Value) (hparts : Says parts o)
    (hflat : IsFlat environment) :
    Options.read (commandLine parts) = .ok o ∧
    (∀ settings, layered o (.ofEnvironment parse environment) = .ok settings ↔
      IsLayered parse o environment settings) ∧
    ((∃ e, layered o (.ofEnvironment parse environment) = .error e) ↔
      ∃ s v, o.LeavesOpen s.argument ∧ settingValue? parse s environment = some v ∧
        ¬ s.IsValid v) ∧
    (∀ environment', IsFlat environment' →
      (∀ s, o.LeavesOpen s.argument → settingText? s environment' = settingText? s environment) →
      layered o (.ofEnvironment parse environment')
        = layered o (.ofEnvironment parse environment)) ∧
    (IsReadable environment → load o environment
      = (layered o (.ofEnvironment Value.ofText environment)).mapError .invalid) ∧
    ∀ settings : Settings, reportInterval settings = max settings.intervalSeconds 1 ∧
      1 ≤ reportInterval settings :=
  ⟨read_commandLine hparts, fun _ => layered_eq_ok_iff hparts.isProper hflat,
    layered_eq_error_iff hparts.isProper hflat, fun _ hflat' => layered_congr hflat hflat',
    load_of_isReadable, fun _ => ⟨rfl, le_max_right ..⟩⟩

/-- Options in some order over variables, one of which is hidden and not valid, and another of no
concern. -/
theorem settings_layered_hidden :
    Says [.joined .workers "8", .scale "+4", .separate .method "exact"]
      ⟨4, some .exact, some 8, none⟩ ∧
    IsFlat [("PATH", "[1,"), ("expo_table_gen_workers", "zero"),
      ("Expo_Table_Gen_Progress_Interval_Secs", "0")] ∧
    Options.read ["--workers=8", "+4", "--method", "exact"]
      = .ok ⟨4, some .exact, some 8, none⟩ ∧
    load ⟨4, some .exact, some 8, none⟩ [("PATH", "[1,"), ("expo_table_gen_workers", "zero"),
      ("Expo_Table_Gen_Progress_Interval_Secs", "0")] = .ok ⟨.exact, some 8, 0⟩ := by
  have hparts : Says [.joined .workers "8", .scale "+4", .separate .method "exact"]
      ⟨4, some .exact, some 8, none⟩ := by
    refine ⟨by decide, ?_, ?_⟩
    · simp only [List.forall_mem_cons]
      exact ⟨⟨8, by decide, by decide, rfl⟩, ⟨by decide, by decide⟩, ⟨.exact, by decide, rfl⟩,
        by simp⟩
    · intro a ha
      cases a <;> first | rfl | exact absurd (by decide) ha
  have hflat : IsFlat [("PATH", "[1,"), ("expo_table_gen_workers", "zero"),
      ("Expo_Table_Gen_Progress_Interval_Secs", "0")] :=
    ⟨by decide +kernel, fun s => by cases s <;> decide +kernel⟩
  have hinterval : settingValue? Value.ofText .interval [("PATH", "[1,"),
      ("expo_table_gen_workers", "zero"), ("Expo_Table_Gen_Progress_Interval_Secs", "0")]
        = some (.integer 0) := by
    decide +kernel
  obtain ⟨hread, hlayered, -, -, hload, -⟩ := settings_layered Value.ofText hparts hflat
  refine ⟨hparts, hflat, hread, ?_⟩
  rw [hload (by decide +kernel), (hlayered ⟨.exact, some 8, 0⟩).mpr ⟨rfl, rfl, ?_⟩]
  · rfl
  · rw [hinterval]
    exact ⟨rfl, by decide⟩

end ExponentialHistogram.Settings
