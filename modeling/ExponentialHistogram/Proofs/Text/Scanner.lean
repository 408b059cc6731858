/-
ExponentialHistogram.Proofs.Text.Scanner — reading a text from the left.

A scanner takes something from the front of a text and leaves the rest. It reads a
text if it takes exactly that, whatever comes after (`Reads`); so what is read one
after the other is what the joined text is read as (`Reads.bind`). Values stand
between fixed texts. Where one ends is told by the first character of the text
behind it, which must not occur in the value itself (`Reads.before`).

Texts are mostly lines. A line is read together with the newline that ends it, and
a list of lines one after the other (`ReadsLines`).
-/
import Mathlib
import ExponentialHistogram.Proofs.Text.Digits

namespace ExponentialHistogram.Text

/-- Reads something at the front of a text and leaves the rest. -/
abbrev Scanner := StateT (List Char) Option

namespace Scanner

variable {α β : Type}

/-- Passes over a text that has to be there. -/
def expect (text : String) : Scanner Unit :=
  fun cs => (cs.dropPrefix? text.toList).map ((), ·)

/-- Reads what stands in front of a text, and passes over that text. It begins where its first
character occurs first. -/
def before (stop : String) (read? : List Char → Option α) : Scanner α := fun cs => do
  let field := cs.takeWhile (some · ≠ stop.toList.head?)
  let a ← read? field
  let rest ← (cs.drop field.length).dropPrefix? stop.toList
  return (a, rest)

/-- Reads what stands between two texts. -/
def between (front back : String) (read? : List Char → Option α) : Scanner α := do
  expect front
  before back read?

/-- Reads a line, together with the newline at its end. -/
def line (s : Scanner α) : Scanner α := do
  let a ← s
  expect "\n"
  return a

/-- The scanner takes exactly this text, whatever comes after it. -/
def Reads (s : Scanner α) (text : List Char) (a : α) : Prop :=
  ∀ rest, s.run (text ++ rest) = some (a, rest)

variable {s : Scanner α} {f : α → Scanner β} {text text' : List Char} {a : α} {b : β}

theorem Reads.pure (a : α) : Reads (Pure.pure a) [] a := fun _ => rfl

theorem Reads.bind (h : Reads s text a) (h' : Reads (f a) text' b) :
    Reads (s >>= f) (text ++ text') b := by
  intro rest
  rw [StateT.run_bind, List.append_assoc, h]
  exact h' rest

/-- The value of the scanner before is all that the last step adds. -/
theorem Reads.map {g : α → β} (h : Reads s text a) : Reads (do return g (← s)) text (g a) := by
  have := Reads.bind (f := fun a => Pure.pure (g a)) h (Reads.pure (g a))
  rwa [List.append_nil] at this

theorem Reads.of_guard {p : Prop} [Decidable p] (hp : p) : Reads (guard p) [] () := by
  intro rest
  rw [guard, if_pos hp]
  rfl

theorem dropPrefix?_append (text rest : List Char) : (text ++ rest).dropPrefix? text = some rest :=
  List.dropPrefix?_append_of_beq rest (beq_self_eq_true text)

theorem Reads.expect (text : String) : Reads (expect text) text.toList () := by
  intro rest
  exact congrArg (Option.map _) (dropPrefix?_append text.toList rest)

/-- A value in front of a text ends where the first character of that text occurs first. -/
theorem Reads.before {read? : List Char → Option α} {stop : String} {c : Char} {cs : List Char}
    (hread : read? text = some a) (hstop : stop.toList = c :: cs) (hnot : c ∉ text) :
    Reads (before stop read?) (text ++ stop.toList) a := by
  intro rest
  have hne : ∀ d ∈ text, decide (some d ≠ stop.toList.head?) = true := by
    intro d hd
    rw [hstop, List.head?_cons]
    refine decide_eq_true fun heq => hnot ?_
    rwa [← Option.some.inj heq]
  have hfield : (text ++ (stop.toList ++ rest)).takeWhile
      (fun d => decide (some d ≠ stop.toList.head?)) = text := by
    rw [List.takeWhile_append_of_pos hne, hstop]
    simp
  rw [List.append_assoc, StateT.run]
  unfold Scanner.before
  simp only [hfield, List.drop_left, dropPrefix?_append, hread]
  rfl

theorem Reads.between {read? : List Char → Option α} {front back : String} {c : Char}
    {cs : List Char} (hread : read? text = some a) (hback : back.toList = c :: cs)
    (hnot : c ∉ text) :
    Reads (between front back read?) (front.toList ++ text ++ back.toList) a := by
  rw [List.append_assoc]
  exact (Reads.expect front).bind (.before hread hback hnot)

/-! ## Lines -/

theorem Reads.line (h : Reads s text a) : Reads (line s) (text ++ ['\n']) a := by
  exact Reads.bind h (Reads.map (g := fun _ => a) (Reads.expect "\n"))

/-- Reads the same kind of thing a number of times. -/
def many (s : Scanner α) : (count : Nat) → Scanner (List α)
  | 0 => return []
  | count + 1 => do
    let a ← s
    let as ← many s count
    return a :: as

/-- The scanner takes these lines, every one with the newline at its end. -/
def ReadsLines (s : Scanner α) (lines : List (List Char)) (a : α) : Prop :=
  Reads s (lines.flatMap (· ++ ['\n'])) a

variable {text : List Char} {ls ls' : List (List Char)}

theorem ReadsLines.pure (a : α) : ReadsLines (Pure.pure a) [] a := Reads.pure a

theorem ReadsLines.bind (h : ReadsLines s ls a) (h' : ReadsLines (f a) ls' b) :
    ReadsLines (s >>= f) (ls ++ ls') b := by
  rw [ReadsLines, List.flatMap_append]
  exact Reads.bind h h'

/-- One line, and then the others. -/
theorem Reads.cons {l : List Char} (h : Reads s (l ++ ['\n']) a) (h' : ReadsLines (f a) ls b) :
    ReadsLines (s >>= f) (l :: ls) b :=
  Reads.bind h h'

/-- Lines of one kind, each read as its value. -/
theorem ReadsLines.many {as : List α}
    (h : List.Forall₂ (fun l a => Reads s (l ++ ['\n']) a) ls as) :
    ReadsLines (many s ls.length) ls as := by
  induction h with
  | nil => exact .pure []
  | cons ha _ ih => exact ha.cons (Reads.map ih)

end Scanner

end ExponentialHistogram.Text
