/-
ExponentialHistogram.Settings.Arguments — the command line of the generator.

The words of a command line are judged from left to right. A value that
stands alone is only looked at when the next option or the end shows that it
is complete, so it stays pending until then; a word that is no option at all
is reported even before that.
-/
import ExponentialHistogram.Generator.Table
import ExponentialHistogram.Settings.Numeral

namespace ExponentialHistogram.Settings

open Generator (Method)

/-- What a command line can set. The scale has no name, it just stands there. -/
inductive Argument where
  | scale
  | method
  | workers
  | interval
deriving DecidableEq, Repr

/-- Why a command line is not accepted. Asking for help is among the reasons. -/
inductive ArgumentError where
  | missingScale
  | missingValue (a : Argument)
  | unknownMethod
  | invalidNumber (a : Argument)
  | repeated (a : Argument)
  | unknownWord
  | help
  | helpWithValue
deriving DecidableEq, Repr

/-- An accepted command line; what it leaves open is `none`. -/
structure Options where
  scale : Int
  method : Option Method
  workers : Option Nat
  interval : Option Nat
deriving DecidableEq, Repr

/-- The methods by name. -/
def method? (cs : List Char) : Option Method :=
  if cs = Method.exact.name.toList then some .exact
  else if cs = Method.native.name.toList then some .native
  else none

/-! ## Words -/

/-- What a word is, as long as options are expected. -/
inductive Word where
  | plain
  | endOfOptions
  | option (a : Argument) (value : Option (List Char))
  | help
  | helpWithValue
  | unknown
deriving DecidableEq, Repr

/-- The part up to the first equals sign, and what follows it. -/
def splitEquals (cs : List Char) : List Char × Option (List Char) :=
  let name := cs.takeWhile (· != '=')
  match cs.dropWhile (· != '=') with
  | [] => (name, none)
  | _ :: value => (name, some value)

def option? (name : List Char) : Option Argument :=
  if name = "method".toList then some .method
  else if name = "workers".toList then some .workers
  else if name = "progress-interval-secs".toList then some .interval
  else none

/-- A hyphen alone is a plain word; two end the options. Of the short options there is only `-h`,
and whatever follows the letter is not looked at. -/
def Word.ofText : List Char → Word
  | ['-', '-'] => .endOfOptions
  | '-' :: '-' :: text =>
    let (name, value) := splitEquals text
    match option? name with
    | some a => .option a value
    | none =>
      if name = "help".toList then
        match value with
        | none => .help
        | some _ => .helpWithValue
      else .unknown
  | '-' :: 'h' :: _ => .help
  | '-' :: _ :: _ => .unknown
  | _ => .plain

/-! ## Reading -/

/-- What has been accepted so far. -/
structure Draft where
  scale : Option Int := none
  method : Option Method := none
  workers : Option Nat := none
  interval : Option Nat := none
deriving DecidableEq, Repr

namespace Draft

def holds (d : Draft) : Argument → Bool
  | .scale => d.scale.isSome
  | .method => d.method.isSome
  | .workers => d.workers.isSome
  | .interval => d.interval.isSome

/-- Sets an argument that has not been set to the value that the text spells. -/
def read (d : Draft) (a : Argument) (text : List Char) : Except ArgumentError Draft :=
  match a with
  | .scale =>
    match integer? text with
    | some n =>
      if n ∈ ScaleRange.fine then .ok { d with scale := some n } else .error (.invalidNumber a)
    | none => .error (.invalidNumber a)
  | .method =>
    match method? text with
    | some m => .ok { d with method := some m }
    | none => .error .unknownMethod
  | .workers =>
    match natural? text with
    | some n => if n = 0 then .error (.invalidNumber a) else .ok { d with workers := some n }
    | none => .error (.invalidNumber a)
  | .interval =>
    match natural? text with
    | some n => .ok { d with interval := some n }
    | none => .error (.invalidNumber a)

/-- Accepts an argument with its text. A missing text is reported before a repetition, and that
before the text is looked at. -/
def accept (d : Draft) (a : Argument) (text : Option (List Char)) : Except ArgumentError Draft :=
  match text with
  | none => .error (.missingValue a)
  | some text => if d.holds a then .error (.repeated a) else d.read a text

end Draft

/-- The reader of a command line between two words. -/
structure Reader where
  draft : Draft := {}
  /-- The argument that is complete or only waits for its text. -/
  pending : Option (Argument × Option (List Char)) := none
  sawScale : Bool := false
  optionsEnded : Bool := false
deriving DecidableEq, Repr

namespace Reader

/-- Accepts what is pending. -/
def settle (r : Reader) : Except ArgumentError Reader :=
  match r.pending with
  | none => .ok r
  | some (a, text) => do return { r with draft := ← r.draft.accept a text, pending := none }

/-- Takes a word that can only be the scale. -/
def takeScale (r : Reader) (text : List Char) : Except ArgumentError Reader :=
  if r.sawScale then .error .unknownWord
  else do return { ← r.settle with pending := some (.scale, some text), sawScale := true }

/-- Takes the next word. -/
def step (r : Reader) (text : List Char) : Except ArgumentError Reader :=
  if r.optionsEnded then r.takeScale text
  else match Word.ofText text with
    | .plain =>
      match r.pending with
      | some (a, none) => .ok { r with pending := some (a, some text) }
      | _ => r.takeScale text
    | .endOfOptions => .ok { r with optionsEnded := true }
    | .option a none => do return { ← r.settle with pending := some (a, none) }
    | .option a (some value) => do
      let r ← r.settle
      return { r with draft := ← r.draft.accept a (some value) }
    | .help => do
      let _ ← r.settle
      throw .help
    | .helpWithValue => .error .helpWithValue
    | .unknown => .error .unknownWord

end Reader

/-- The options of a command line, given as its words after the name of the program. -/
def Options.read (words : List String) : Except ArgumentError Options := do
  let r ← (words.map (·.toList)).foldlM Reader.step {}
  let d := (← r.settle).draft
  match d.scale with
  | none => throw .missingScale
  | some scale => return ⟨scale, d.method, d.workers, d.interval⟩

end ExponentialHistogram.Settings
