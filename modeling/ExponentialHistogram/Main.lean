/-
ExponentialHistogram.Main — the command `expo-table-gen`.

Prints the table of a scale as source text. Settings come from the command
line and from environment variables, which are looked up by their names in
upper case.
-/
import ExponentialHistogram.Command
import ExponentialHistogram.Platform

namespace ExponentialHistogram

/-- The environment variables of the settings that are there. -/
def readEnvironment : IO (List (String × String)) := do
  let names := Settings.Setting.all.map fun s => Settings.variableStem ++ s.name.toUpper
  names.filterMapM fun name => return (← IO.getEnv name).map (name, ·)

end ExponentialHistogram

def main (words : List String) : IO UInt32 := do
  let environment ← ExponentialHistogram.readEnvironment
  let outcome :=
    ExponentialHistogram.runCommand ExponentialHistogram.platformEstimates words environment
  IO.print (String.ofList outcome.output)
  return outcome.exitCode
