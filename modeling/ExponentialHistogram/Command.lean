/-
ExponentialHistogram.Command — one run of the table generator.

What the command prints and how it exits is a function of its words and its
environment. The exit code is 2 for a command line that is not accepted, 1
for settings that are not valid and 101 for an environment that cannot be
read; nothing is printed then.
-/
import ExponentialHistogram.Estimates
import ExponentialHistogram.Generator.Rendering
import ExponentialHistogram.Settings.Layers

namespace ExponentialHistogram

/-- What a run of the command leaves behind. -/
structure Outcome where
  exitCode : UInt32
  output : List Char
deriving DecidableEq, Repr

/-- The command, for the words after its name and an environment. -/
def runCommand (estimates : Estimates) (words : List String) (environment : List (String × String)) :
    Outcome :=
  match Settings.Options.read words with
  | .error .help => ⟨0, []⟩
  | .error _ => ⟨2, []⟩
  | .ok options =>
    match Settings.load options environment with
    | .error (.invalid _) => ⟨1, []⟩
    | .error .unreadable => ⟨101, []⟩
    | .ok settings =>
      -- The machine is not asked how many it can run at once; the table does not depend on it.
      let workers := settings.workerCount none
      match Generator.generate estimates options.scale settings.method workers with
      | .error _ => ⟨1, []⟩
      | .ok thresholds => ⟨0, Generator.render options.scale thresholds.toList⟩

end ExponentialHistogram
