/-
ExponentialHistogram.Settings.Environment — settings from environment
variables.

A variable is named after its setting, behind a common stem, in letters of
either case and with white space around if need be. Behind a point the name
of a member may follow, and of a member of that: such a variable makes the
setting a table. Each variable behind the stem is a dictionary, and these are
laid one over the other in the order of the variables.
-/
import ExponentialHistogram.Settings.Dictionary

namespace ExponentialHistogram.Settings

/-- The settings that have an environment variable. -/
inductive Setting where
  | method
  | workers
  | interval
deriving DecidableEq, Repr

def Setting.name : Setting → String
  | method => "method"
  | workers => "workers"
  | interval => "progress_interval_secs"

def Setting.all : List Setting := [method, workers, interval]

def variableStem : String := "EXPO_TABLE_GEN_"

/-! ## Names of variables -/

/-- The parts of a text between points. -/
def segments : List Char → List (List Char)
  | [] => [[]]
  | '.' :: rest => [] :: segments rest
  | c :: rest =>
    match segments rest with
    | [] => [[c]]
    | first :: more => (c :: first) :: more

/-- The parts of the name of a variable behind the stem, in lower case. No part may be empty. -/
def nameParts? (name : List Char) : Option (List (List Char)) :=
  let name := (strip isSpace name).map Char.toLower
  let stem := variableStem.toList.map Char.toLower
  let parts := segments (strip isSpace (name.drop stem.length))
  if stem.isPrefixOf name && !parts.contains [] then some parts else none

/-! ## Variables -/

/-- The variables behind the stem: the parts of their names, with their texts. -/
def behindStem (environment : List (String × String)) : List (List (List Char) × List Char) :=
  environment.filterMap fun (name, text) => (nameParts? name.toList).map (·, text.toList)

/-- What the variables give, if this is how their texts are read. -/
def Dictionary.ofEnvironment (parse : List Char → Value) (environment : List (String × String)) :
    Dictionary :=
  mergeAll ((behindStem environment).map fun (parts, text) => nested parts (parse text))

/-- Whether each text has a value. Also one that no setting is interested in is read. -/
def isReadable (environment : List (String × String)) : Bool :=
  (behindStem environment).all fun (_, text) => (Value.ofText? text).isSome

end ExponentialHistogram.Settings
