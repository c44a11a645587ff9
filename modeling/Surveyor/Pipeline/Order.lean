import Surveyor.Pipeline.Stage

/-! # The order of stages

A stage may only read what earlier stages provide, or what no stage provides.
-/

namespace Surveyor

inductive OrderError where
  | unnamed
  | duplicates (names : List String)
  /-- A stage reads a part that is first provided at its own or a later position. -/
  | readsAhead (reader part provider : String)
  deriving DecidableEq, Repr

def OrderError.message : OrderError → String
  | .unnamed => "Every stage must define a non-empty name"
  | .duplicates names => "Duplicate stage names: " ++ Text.join ", " names
  | .readsAhead reader part provider =>
    "Stage '" ++ reader ++ "' reads '" ++ part ++ "' which is produced by '" ++ provider
      ++ "' at the same or a later position"

/-- The names that occur more than once, in ascending order. -/
def duplicateNames (names : List String) : List String :=
  Text.distinctSorted (names.filter fun name => 1 < names.count name)

def firstProvider? (stages : List Stage) (part : String) : Option Nat :=
  stages.findIdx? fun stage => stage.provides.contains part

/-- The first part that the stage at a position reads too early. -/
def readsAhead? (stages : List Stage) (stage : Stage) (position : Nat) : Option OrderError :=
  stage.reads.findSome? fun part =>
    match firstProvider? stages part with
    | some origin =>
      if position ≤ origin then
        some (.readsAhead stage.name part ((stages[origin]?.map (·.name)).getD ""))
      else none
    | none => none

/-- The first fault in the order of the stages. -/
def orderError? (stages : List Stage) : Option OrderError :=
  let names := stages.map (·.name)
  if names.contains "" then some .unnamed
  else if !(duplicateNames names).isEmpty then some (.duplicates (duplicateNames names))
  else stages.zipIdx.findSome? fun (stage, position) => readsAhead? stages stage position

end Surveyor
