/-
ExponentialHistogram.Settings.Layers — options over environment over defaults.

The defaults, the environment and the command line are dictionaries, laid one
over the other; what comes out is read once, at the end. So a value that is not
valid does no harm where a later layer has another one. What a command line
leaves open has no entry in its dictionary, for it would hide the entries below.
-/
import ExponentialHistogram.Settings.Arguments
import ExponentialHistogram.Settings.Environment

namespace ExponentialHistogram

open Generator (Method)

/-- What the generator runs with. Without a number of workers it is up to the machine. -/
structure Settings where
  method : Method
  workers : Option Nat
  intervalSeconds : Nat
deriving DecidableEq, Repr

namespace Settings

/-! ## Settings as dictionaries -/

/-- The settings that have a value, by their names. -/
def Dictionary.ofSettings (value? : Setting → Option Value) : Dictionary where
  entries := Setting.all.filterMap fun s => (value? s).map (s.name.toList, ·)

def Value.ofMethod (m : Method) : Value := .text m.name.toList

def Value.ofNatural (n : Nat) : Value := .integer n

/-- A number of workers that is up to the machine is an empty value. -/
def Value.ofWorkers : Option Nat → Value
  | some n => .ofNatural n
  | none => .empty

/-- What stands for a setting. -/
def value (settings : Settings) : Setting → Value
  | .method => .ofMethod settings.method
  | .workers => .ofWorkers settings.workers
  | .interval => .ofNatural settings.intervalSeconds

def dictionary (settings : Settings) : Dictionary := .ofSettings fun s => some (settings.value s)

def defaults : Settings where
  method := .exact
  workers := none
  intervalSeconds := 60

/-- What stands for a setting that is not left open. -/
def Options.value? (o : Options) : Setting → Option Value
  | .method => o.method.map Value.ofMethod
  | .workers => o.workers.map fun n => .ofWorkers (some n)
  | .interval => o.interval.map Value.ofNatural

/-- The scale is an option that is no setting. -/
def Options.dictionary (o : Options) : Dictionary := .ofSettings o.value?

/-! ## Reading values -/

/-- Only a text names a method. -/
def Value.method? : Value → Option Method
  | text s => Settings.method? s
  | _ => none

def Value.natural? : Value → Option Nat
  | integer n => if 0 ≤ n ∧ n < 2 ^ 64 then some n.toNat else none
  | _ => none

/-- A number of workers is positive. An empty value leaves it to the machine. -/
def Value.workers? : Value → Option (Option Nat)
  | empty => some none
  | v => (v.natural?.filter (0 < ·)).map some

/-! ## What can be wrong -/

/-- The first name in the order of code points. -/
def firstName? : List (List Char) → Option (List Char)
  | [] => none
  | name :: more =>
    match firstName? more with
    | some other => some (if other < name then other else name)
    | none => some name

/-- Why a dictionary holds no settings. -/
inductive ExtractError where
  | missing (s : Setting)
  | invalid (s : Setting) (member : Option (List Char))
deriving DecidableEq, Repr

namespace ExtractError

/-- What is wrong with a value that is not valid. A method may be the name of the only member of a
table, but there is no value that it could have there, so the first member is at fault. -/
def ofValue (s : Setting) (v : Value) : ExtractError :=
  match s, v with
  | .method, .table names => invalid s (firstName? names)
  | _, _ => invalid s none

/-- The setting and the member, with a point between them. -/
def path : ExtractError → String
  | missing s => s.name
  | invalid s none => s.name
  | invalid s (some member) => s.name ++ "." ++ String.ofList member

end ExtractError

/-! ## Extraction -/

/-- The value of a setting, if the dictionary has one. -/
def Dictionary.read {α : Type} (d : Dictionary) (s : Setting) (read? : Value → Option α) :
    Except ExtractError (Option α) :=
  match d.get? s.name.toList with
  | none => .ok none
  | some v =>
    match read? v with
    | some a => .ok (some a)
    | none => .error (.ofValue s v)

def require {α : Type} (s : Setting) : Option α → Except ExtractError α
  | some a => .ok a
  | none => .error (.missing s)

/-- The settings that a dictionary holds. Other names are passed over. The values are read in the
order of their names, and it is only then that one is missed; a number of workers never is. -/
def extract (d : Dictionary) : Except ExtractError Settings := do
  let method ← d.read .method Value.method?
  let interval ← d.read .interval Value.natural?
  let workers ← d.read .workers Value.workers?
  return ⟨← require .method method, workers.getD none, ← require .interval interval⟩

/-! ## Layers -/

/-- The settings for a command line over an environment. -/
def layered (options : Options) (environment : Dictionary) : Except ExtractError Settings :=
  extract ((defaults.dictionary.merge environment).merge options.dictionary)

/-- Why there are no settings. -/
inductive LoadError where
  | invalid (e : ExtractError)
  /-- A variable has no value, so that the environment cannot be read. -/
  | unreadable
deriving DecidableEq, Repr

/-- The settings for a command line and the variables that are set. These are read before anything
else, the ones included that an option hides. -/
def load (options : Options) (environment : List (String × String)) :
    Except LoadError Settings :=
  if isReadable environment then
    (layered options (.ofEnvironment Value.ofText environment)).mapError .invalid
  else .error .unreadable

/-- The number of workers to use: the one that is set, else as many as the machine can run at once,
else one. -/
def workerCount (s : Settings) (parallelism : Option Nat) : Nat := (s.workers.or parallelism).getD 1

/-- The seconds between two reports; at least one. -/
def reportInterval (s : Settings) : Nat := max s.intervalSeconds 1

end Settings

end ExponentialHistogram
