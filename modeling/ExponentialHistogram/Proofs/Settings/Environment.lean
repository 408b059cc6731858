/-
ExponentialHistogram.Proofs.Settings.Environment — one variable for a setting.

An environment is flat if no variable behind the stem has a name with a point
and no setting has two variables (`IsFlat`). Then what the variables give to a
setting is the value of the one that is named after it (`get?_ofEnvironment`),
wherever it stands, whatever else there is and however texts are read.
-/
import Mathlib
import ExponentialHistogram.Proofs.Settings.Dictionary
import ExponentialHistogram.Settings.Environment

namespace ExponentialHistogram.Settings

/-- The variable is named after the setting, in letters of either case. -/
def Setting.Names (s : Setting) (name : String) : Prop :=
  nameParts? name.toList = some [s.name.toList]

instance (s : Setting) (name : String) : Decidable (s.Names name) :=
  inferInstanceAs (Decidable (nameParts? name.toList = some [s.name.toList]))

/-- No variable behind the stem has a point in its name. -/
def IsUndotted (environment : List (String × String)) : Prop :=
  ∀ p ∈ environment, ∀ parts ∈ nameParts? p.1.toList, parts.length = 1

instance (environment : List (String × String)) : Decidable (IsUndotted environment) :=
  inferInstanceAs (Decidable (∀ p ∈ environment, ∀ parts ∈ nameParts? p.1.toList, parts.length = 1))

/-- No member of a setting is named, and no setting twice. -/
structure IsFlat (environment : List (String × String)) : Prop where
  undotted : IsUndotted environment
  unique : ∀ s : Setting, (environment.filter fun p => s.Names p.1).length ≤ 1

/-- Every text behind the stem has a value. -/
def IsReadable (environment : List (String × String)) : Prop :=
  ∀ p ∈ environment, nameParts? p.1.toList ≠ none → Value.ofText? p.2.toList ≠ none

instance (environment : List (String × String)) : Decidable (IsReadable environment) :=
  inferInstanceAs (Decidable (∀ p ∈ environment,
    nameParts? p.1.toList ≠ none → Value.ofText? p.2.toList ≠ none))

/-- The text of the first variable that is named after a setting. -/
def settingText? (s : Setting) (environment : List (String × String)) : Option String :=
  (environment.find? fun p => s.Names p.1).map (·.2)

/-- The value of that text. -/
def settingValue? (parse : List Char → Value) (s : Setting) (environment : List (String × String)) :
    Option Value :=
  (settingText? s environment).map fun text => parse text.toList

variable {environment : List (String × String)} {s s' : Setting}

theorem Setting.name_injective (h : s.name.toList = s'.name.toList) : s = s' := by
  cases s <;> cases s' <;> first | rfl | exact absurd h (by decide)

theorem isReadable_iff : isReadable environment = true ↔ IsReadable environment := by
  rw [isReadable, List.all_eq_true, IsReadable]
  constructor
  · intro h p hp hparts
    obtain ⟨parts, hparts⟩ := Option.ne_none_iff_exists'.mp hparts
    exact Option.isSome_iff_ne_none.mp
      (h (parts, p.2.toList) (List.mem_filterMap.mpr ⟨p, hp, by simp [hparts]⟩))
  · intro h v hv
    obtain ⟨p, hp, hmap⟩ := List.mem_filterMap.mp hv
    obtain ⟨parts, hparts, rfl⟩ := Option.map_eq_some_iff.mp hmap
    exact Option.isSome_iff_ne_none.mpr (h p hp (by simp [hparts]))

/-! ## What is given to a setting -/

/-- Of the layers of the variables, those named after a setting have its name. -/
theorem filterMap_get?_behindStem (parse : List Char → Value) (hundotted : IsUndotted environment)
    (s : Setting) :
    ((behindStem environment).map fun (parts, text) =>
        Dictionary.nested parts (parse text)).filterMap (·.get? s.name.toList)
      = (environment.filter fun p => s.Names p.1).map fun p => parse p.2.toList := by
  induction environment with
  | nil => rfl
  | cons p environment ih =>
    obtain ⟨hfirst, hrest⟩ := List.forall_mem_cons.mp hundotted
    have ih := ih hrest
    rw [behindStem] at ih ⊢
    cases hparts : nameParts? p.1.toList with
    | none =>
      have hnames : ¬ s.Names p.1 := by simp [Setting.Names, hparts]
      simpa [hparts, hnames] using ih
    | some parts =>
      obtain ⟨first, rfl⟩ := List.length_eq_one_iff.mp (hfirst parts hparts)
      by_cases heq : s.name.toList = first
      · have hnames : s.Names p.1 := by rw [Setting.Names, hparts, heq]
        simpa [hparts, hnames, heq, Dictionary.get?_nested_singleton] using ih
      · have hnames : ¬ s.Names p.1 := by simpa [Setting.Names, hparts] using Ne.symm heq
        simpa [hparts, hnames, heq, Dictionary.get?_nested_singleton] using ih

/-- **The value of a setting** is that of its variable. -/
theorem get?_ofEnvironment (parse : List Char → Value) (hflat : IsFlat environment) (s : Setting) :
    (Dictionary.ofEnvironment parse environment).get? s.name.toList
      = settingValue? parse s environment := by
  have hgiven := filterMap_get?_behindStem parse hflat.undotted s
  have hone := hflat.unique s
  rw [Dictionary.ofEnvironment, Dictionary.get?_mergeAll_of_le_one, hgiven, List.head?_map,
    List.head?_filter, settingValue?, settingText?, Option.map_map]
  · rfl
  · rwa [hgiven, List.length_map]

end ExponentialHistogram.Settings
