/-
ExponentialHistogram.Settings.Dictionary — values by name.

Settings come from several places, and each of them is a dictionary. One is
laid over another name by name, so that a dictionary changes nothing about
the names that it does not have.
-/
import ExponentialHistogram.Settings.Value

namespace ExponentialHistogram.Settings

/-- Values by name. Of several entries for a name the first one counts. -/
structure Dictionary where
  entries : List (List Char × Value) := []
deriving DecidableEq, Repr

namespace Dictionary

def get? (d : Dictionary) (name : List Char) : Option Value := d.entries.lookup name

/-- The later dictionary laid over the earlier one. -/
def merge (earlier later : Dictionary) : Dictionary where
  entries :=
    (earlier.entries.map fun (name, v) => (name, ((later.get? name).map v.overlay).getD v))
      ++ later.entries.filter fun (name, _) => (earlier.get? name).isNone

/-- Dictionaries laid one over the other in their order. -/
def mergeAll (layers : List Dictionary) : Dictionary := layers.foldl merge {}

/-- The dictionary with a value under a name or, if more parts follow, under a member of what is
there. Of the members the name of the first one is all that is kept. -/
def nested (parts : List (List Char)) (v : Value) : Dictionary :=
  match parts with
  | [] => {}
  | [name] => ⟨[(name, v)]⟩
  | name :: member :: _ => ⟨[(name, .table [member])]⟩

end Dictionary

end ExponentialHistogram.Settings
