/-
ExponentialHistogram.Proofs.Settings.CommandLine — command lines that say the
same thing.

A command line is made of parts: the scale, and options with their text behind
an equals sign or in a word of its own (`Part`). It says certain options if every
part spells one of them, none twice, and what is left out is open (`Says`). Then
it is read as these options, in whatever order and spelling (`read_commandLine`).

The reader looks at a text that stands alone only when the next option shows that
it is complete. So what it has read is described by what settling would make of
it (`Reader.HasRead`). That is kept from part to part.
-/
import Mathlib
import ExponentialHistogram.Proofs.Loop
import ExponentialHistogram.Settings.Layers

namespace ExponentialHistogram.Settings

/-! ## Command lines -/

def Setting.argument : Setting → Argument
  | method => .method
  | workers => .workers
  | interval => .interval

/-- The name of the option for a setting. -/
def Setting.optionName : Setting → String
  | method => "method"
  | workers => "workers"
  | interval => "progress-interval-secs"

/-- What a command line is made of. The text of an option may be a word of its own. -/
inductive Part where
  | scale (text : String)
  | separate (s : Setting) (text : String)
  | joined (s : Setting) (text : String)

namespace Part

def argument : Part → Argument
  | scale _ => .scale
  | separate s _ | joined s _ => s.argument

def text : Part → String
  | scale text | separate _ text | joined _ text => text

def words : Part → List String
  | scale text => [text]
  | separate s text => ["--" ++ s.optionName, text]
  | joined s text => ["--" ++ s.optionName ++ "=" ++ text]

end Part

def commandLine (parts : List Part) : List String := parts.flatMap Part.words

/-- The text spells what the options hold for an argument. -/
def Options.Spells (o : Options) (text : List Char) : Argument → Prop
  | .scale => integer? text = some o.scale ∧ o.scale ∈ ScaleRange.fine
  | .method => ∃ m, method? text = some m ∧ o.method = some m
  | .workers => ∃ n, natural? text = some n ∧ 0 < n ∧ o.workers = some n
  | .interval => ∃ n, natural? text = some n ∧ o.interval = some n

/-- The options say nothing about an argument. There is no scale that is left out. -/
def Options.LeavesOpen (o : Options) : Argument → Prop
  | .scale => False
  | .method => o.method = none
  | .workers => o.workers = none
  | .interval => o.interval = none

/-- The parts of a command line, in some order, spell these options and nothing else. -/
structure Says (parts : List Part) (o : Options) : Prop where
  once : (parts.map Part.argument).Nodup
  spells : ∀ p ∈ parts, o.Spells p.text.toList p.argument
  leavesOpen : ∀ a, a ∉ parts.map Part.argument → o.LeavesOpen a

/-! ## Words -/

theorem option?_optionName (s : Setting) : option? s.optionName.toList = some s.argument := by
  cases s <;> rfl

theorem not_mem_optionName (s : Setting) : '=' ∉ s.optionName.toList := by
  cases s <;> decide

theorem splitEquals_name {name : List Char} (h : '=' ∉ name) : splitEquals name = (name, none) := by
  have hne : ∀ c ∈ name, (c != '=') = true := fun c hc => bne_iff_ne.mpr fun heq => h (heq ▸ hc)
  have hdrop : name.dropWhile (· != '=') = [] := List.dropWhile_eq_nil_iff.mpr hne
  rw [splitEquals, hdrop, List.takeWhile_eq_self_iff.mpr hne]

theorem splitEquals_append {name : List Char} (h : '=' ∉ name) (value : List Char) :
    splitEquals (name ++ '=' :: value) = (name, some value) := by
  have hne : ∀ c ∈ name, (c != '=') = true := fun c hc => bne_iff_ne.mpr fun heq => h (heq ▸ hc)
  have htake : (name ++ '=' :: value).takeWhile (· != '=') = name := by
    rw [List.takeWhile_append_of_pos hne]
    simp
  have hdrop : (name ++ '=' :: value).dropWhile (· != '=') = '=' :: value := by
    rw [List.dropWhile_append_of_pos hne]
    simp
  rw [splitEquals, htake, hdrop]

/-- A word with two hyphens and the name of an option. -/
theorem Word.ofText_option {s : Setting} {text : List Char} {value : Option (List Char)}
    (h : splitEquals text = (s.optionName.toList, value)) :
    Word.ofText ('-' :: '-' :: text) = .option s.argument value := by
  have hne : text = [] → False := by
    rintro rfl
    cases s <;> cases h
  rw [Word.ofText.eq_2 _ hne, h]
  simp only [option?_optionName]

theorem Word.ofText_separate (s : Setting) :
    Word.ofText ("--" ++ s.optionName).toList = .option s.argument none := by
  rw [String.toList_append]
  exact Word.ofText_option (splitEquals_name (not_mem_optionName s))

theorem Word.ofText_joined (s : Setting) (text : String) :
    Word.ofText ("--" ++ s.optionName ++ "=" ++ text).toList
      = .option s.argument (some text.toList) := by
  rw [String.toList_append, String.toList_append, String.toList_append, List.append_assoc,
    List.append_assoc]
  exact Word.ofText_option (splitEquals_append (not_mem_optionName s) text.toList)

/-- Only a hyphen makes a word an option. -/
theorem Word.ofText_eq_plain {text : List Char} (h : text.head? ≠ some '-') :
    Word.ofText text = .plain := by
  unfold Word.ofText
  split <;> simp_all

variable {o : Options} {text : List Char} {a : Argument} {seen : List Argument}

theorem digits?_hyphen (rest : List Char) : digits? ('-' :: rest) = none := by
  rw [digits?]
  · simp
  · exact List.cons_ne_nil _ _

theorem head?_ne_of_natural? {n : ℕ} (h : natural? text = some n) : text.head? ≠ some '-' := by
  intro hhead
  obtain ⟨rest, rfl⟩ := List.head?_eq_some_iff.mp hhead
  rw [natural?.eq_2 _ (by simp), digits?_hyphen] at h
  cases h

/-- A number with a minus sign is not positive. -/
theorem head?_ne_of_integer? {n : ℤ} (h : integer? text = some n) (hpos : 0 < n) :
    text.head? ≠ some '-' := by
  intro hhead
  obtain ⟨rest, rfl⟩ := List.head?_eq_some_iff.mp hhead
  rw [integer?] at h
  cases hdigits : digits? rest with
  | none => simp [hdigits] at h
  | some m =>
    simp [hdigits] at h
    omega

/-- What spells a value does not look like an option. -/
theorem Options.Spells.ofText_eq_plain (h : o.Spells text a) : Word.ofText text = .plain := by
  refine Word.ofText_eq_plain ?_
  cases a with
  | scale =>
    obtain ⟨hscale, hfine⟩ := h
    exact head?_ne_of_integer? hscale (Int.lt_of_lt_of_le Int.zero_lt_one hfine.1)
  | method =>
    obtain ⟨m, hmethod, -⟩ := h
    unfold method? at hmethod
    split at hmethod
    · rename_i heq
      rw [heq]
      decide
    · split at hmethod
      · rename_i heq
        rw [heq]
        decide
      · cases hmethod
  | workers =>
    obtain ⟨n, hnatural, -⟩ := h
    exact head?_ne_of_natural? hnatural
  | interval =>
    obtain ⟨n, hnatural, -⟩ := h
    exact head?_ne_of_natural? hnatural

/-! ## What has been read -/

/-- The options as far as the arguments have been seen. -/
def Options.restrict (o : Options) (seen : List Argument) : Draft where
  scale := if .scale ∈ seen then some o.scale else none
  method := if .method ∈ seen then o.method else none
  workers := if .workers ∈ seen then o.workers else none
  interval := if .interval ∈ seen then o.interval else none

/-- An argument that has not been seen is accepted, and nothing else changes. -/
theorem accept_restrict (hnew : a ∉ seen) (h : o.Spells text a) :
    (o.restrict seen).accept a (some text) = .ok (o.restrict (a :: seen)) := by
  have hholds : (o.restrict seen).holds a = false := by
    cases a <;> simp [Draft.holds, Options.restrict, hnew]
  rw [Draft.accept, hholds, if_neg Bool.false_ne_true]
  cases a with
  | scale =>
    obtain ⟨hscale, hfine⟩ := h
    simp [Draft.read, Options.restrict, hscale, hfine]
  | method =>
    obtain ⟨m, hmethod, hm⟩ := h
    simp [Draft.read, Options.restrict, hmethod, hm]
  | workers =>
    obtain ⟨n, hnatural, hpos, hn⟩ := h
    simp [Draft.read, Options.restrict, hnatural, hpos.ne', hn]
  | interval =>
    obtain ⟨n, hnatural, hn⟩ := h
    simp [Draft.read, Options.restrict, hnatural, hn]

/-- The reader between two words of a command line that says these options, when it has seen some of
them. -/
structure Reader.HasRead (r : Reader) (o : Options) (seen : List Argument) : Prop where
  settle_eq : r.settle = .ok ⟨o.restrict seen, none, decide (.scale ∈ seen), false⟩
  sawScale_eq : r.sawScale = decide (.scale ∈ seen)
  optionsEnded_eq : r.optionsEnded = false
  pending_ne : ∀ a, r.pending ≠ some (a, none)

theorem Reader.hasRead_start (o : Options) : Reader.HasRead {} o [] where
  settle_eq := rfl
  sawScale_eq := rfl
  optionsEnded_eq := rfl
  pending_ne := by simp

theorem Reader.hasRead_settled (o : Options) (seen : List Argument) :
    Reader.HasRead ⟨o.restrict seen, none, decide (.scale ∈ seen), false⟩ o seen where
  settle_eq := rfl
  sawScale_eq := rfl
  optionsEnded_eq := rfl
  pending_ne := by simp

/-- An argument with its text counts as read, although nobody has looked at the text yet. -/
theorem Reader.hasRead_pending (hnew : a ∉ seen) (h : o.Spells text a) :
    Reader.HasRead ⟨o.restrict seen, some (a, some text), decide (.scale ∈ a :: seen), false⟩ o
      (a :: seen) where
  settle_eq := by
    rw [Reader.settle]
    simp only
    rw [accept_restrict hnew h]
    rfl
  sawScale_eq := rfl
  optionsEnded_eq := rfl
  pending_ne := by simp

theorem Setting.argument_ne_scale (s : Setting) : s.argument ≠ .scale := by
  cases s <;> decide

variable {r : Reader} {p : Part} {parts : List Part} {s : Setting}

theorem Reader.HasRead.decide_eq (s : Setting) (seen : List Argument) :
    decide (.scale ∈ s.argument :: seen) = decide (.scale ∈ seen) :=
  decide_eq_decide.mpr (List.mem_cons.trans (or_iff_right s.argument_ne_scale.symm))

/-- A text that stands alone, when no option is waiting for it, is the scale. -/
theorem Reader.HasRead.step_scale (h : r.HasRead o seen) (hnew : .scale ∉ seen)
    (hplain : Word.ofText text = .plain) :
    r.step text =
      .ok ⟨o.restrict seen, some (.scale, some text), decide (.scale ∈ .scale :: seen), false⟩ := by
  have htake : r.takeScale text
      = .ok ⟨o.restrict seen, some (.scale, some text), true, false⟩ := by
    rw [Reader.takeScale, h.sawScale_eq, decide_eq_false hnew, if_neg Bool.false_ne_true]
    exact bind_eq_of_eq_ok h.settle_eq _
  rw [decide_eq_true (List.mem_cons_self ..), ← htake, Reader.step, h.optionsEnded_eq,
    if_neg Bool.false_ne_true, hplain]
  simp only
  split
  · rename_i hpending
    exact absurd hpending (h.pending_ne _)
  · rfl

theorem Reader.HasRead.step_separate (h : r.HasRead o seen) {word : List Char}
    (hword : Word.ofText word = .option a none) :
    r.step word = .ok ⟨o.restrict seen, some (a, none), decide (.scale ∈ seen), false⟩ := by
  rw [Reader.step, h.optionsEnded_eq, if_neg Bool.false_ne_true, hword]
  exact bind_eq_of_eq_ok h.settle_eq _

/-- The word behind an option that waits for its text. -/
theorem Reader.step_text {d : Draft} {saw : Bool} (hplain : Word.ofText text = .plain) :
    Reader.step ⟨d, some (a, none), saw, false⟩ text = .ok ⟨d, some (a, some text), saw, false⟩ := by
  rw [Reader.step, if_neg Bool.false_ne_true, hplain]

theorem Reader.HasRead.step_joined (h : r.HasRead o seen) {word : List Char} (hnew : a ∉ seen)
    (hspells : o.Spells text a) (hword : Word.ofText word = .option a (some text)) :
    r.step word = .ok ⟨o.restrict (a :: seen), none, decide (.scale ∈ seen), false⟩ := by
  rw [Reader.step, h.optionsEnded_eq, if_neg Bool.false_ne_true, hword]
  refine (bind_eq_of_eq_ok h.settle_eq _).trans ?_
  exact bind_eq_of_eq_ok (accept_restrict hnew hspells) _

/-- **One part more**, whatever the part. -/
theorem Reader.HasRead.part (h : r.HasRead o seen) (hnew : p.argument ∉ seen)
    (hspells : o.Spells p.text.toList p.argument) :
    ∃ r', (p.words.map (·.toList)).foldlM Reader.step r = .ok r' ∧
      r'.HasRead o (p.argument :: seen) := by
  have hplain := hspells.ofText_eq_plain
  cases p with
  | scale text =>
    exact ⟨_, foldlM_cons_of_ok (h.step_scale hnew hplain), hasRead_pending hnew hspells⟩
  | separate s text =>
    refine ⟨_, ?_, hasRead_pending hnew hspells⟩
    rw [Part.argument, decide_eq s seen]
    exact (foldlM_cons_of_ok (h.step_separate (Word.ofText_separate s))).trans
      (foldlM_cons_of_ok (Reader.step_text hplain))
  | joined s text =>
    refine ⟨_, ?_, hasRead_settled o _⟩
    rw [Part.argument, decide_eq s seen]
    exact foldlM_cons_of_ok (h.step_joined hnew hspells (Word.ofText_joined s text))

/-- A run over parts that name no argument twice. -/
theorem Reader.HasRead.line (h : r.HasRead o seen)
    (hnew : (parts.map Part.argument ++ seen).Nodup)
    (hspells : ∀ p ∈ parts, o.Spells p.text.toList p.argument) :
    ∃ r', ((commandLine parts).map (·.toList)).foldlM Reader.step r = .ok r' ∧
      ∃ seen', r'.HasRead o seen' ∧ ∀ a, a ∈ seen' ↔ a ∈ parts.map Part.argument ∨ a ∈ seen := by
  induction parts generalizing r seen with
  | nil => exact ⟨r, rfl, seen, h, by simp⟩
  | cons p parts ih =>
    rw [List.map_cons, List.cons_append, List.nodup_cons] at hnew
    obtain ⟨hfirst, hrest⟩ := hnew
    obtain ⟨r', hfold, hread⟩ := h.part (fun hmem => hfirst (List.mem_append_right _ hmem))
      (hspells p (List.mem_cons_self ..))
    have hnew' : (parts.map Part.argument ++ p.argument :: seen).Nodup :=
      List.nodup_middle.mpr (List.nodup_cons.mpr ⟨hfirst, hrest⟩)
    obtain ⟨r'', hfold', seen', hread', hmem⟩ :=
      ih hread hnew' fun q hq => hspells q (List.mem_cons_of_mem p hq)
    refine ⟨r'', ?_, seen', hread', ?_⟩
    · rw [commandLine, List.flatMap_cons, List.map_append]
      exact (foldlM_append_of_ok hfold).trans hfold'
    · intro a
      rw [hmem, List.map_cons, List.mem_cons, List.mem_cons, or_left_comm, or_assoc]

/-- Options whose open arguments have not been seen are all that is read. -/
theorem restrict_eq (hopen : ∀ a, a ∉ seen → o.LeavesOpen a) :
    o.restrict seen = ⟨some o.scale, o.method, o.workers, o.interval⟩ := by
  have hscale : .scale ∈ seen := by_contra fun h => hopen .scale h
  rw [Options.restrict, Draft.mk.injEq]
  exact ⟨if_pos hscale, ite_eq_left_iff.mpr fun h => (hopen .method h).symm,
    ite_eq_left_iff.mpr fun h => (hopen .workers h).symm,
    ite_eq_left_iff.mpr fun h => (hopen .interval h).symm⟩

/-- **A command line is read as what it says**, in any order and spelling. -/
theorem read_commandLine (h : Says parts o) : Options.read (commandLine parts) = .ok o := by
  have honce : (parts.map Part.argument ++ []).Nodup := by
    rw [List.append_nil]
    exact h.once
  obtain ⟨r, hfold, seen, hread, hmem⟩ := (Reader.hasRead_start o).line honce h.spells
  have hdraft : o.restrict seen = ⟨some o.scale, o.method, o.workers, o.interval⟩ :=
    restrict_eq fun a ha => h.leavesOpen a fun hin => ha ((hmem a).mpr (Or.inl hin))
  rw [Options.read]
  refine (bind_eq_of_eq_ok hfold _).trans ((bind_eq_of_eq_ok hread.settle_eq _).trans ?_)
  simp only [hdraft]
  rfl

end ExponentialHistogram.Settings
