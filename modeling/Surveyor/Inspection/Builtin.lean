import Surveyor.Inspection.Cataloguing
import Surveyor.Inspection.Quality
import Surveyor.Inspection.StackProfile
import Surveyor.Inspection.Structure
import Surveyor.Location.Basic
import Surveyor.Pipeline.Discovery
import Surveyor.Score.Scorecard

/-! # The built-in stages -/

namespace Surveyor

/-- The result of a stage that only looks at values. -/
def StageRun.ofResult (result : Except ValueFault Entries) : StageRun :=
  ⟨[], match result with
    | .ok delta => .delta delta
    | .error fault => .failed (.ofFault fault)⟩

def sortedPaths (files : Value) : Except ValueFault (List Value) := do
  Value.sortedBy id (← (← files.members).mapM (·.entry "path"))

def Locations.ofSnapshot (projectType snapshot : Value) : Except ValueFault Locations := do
  let files ← Snapshot.files snapshot
  let contents ← Snapshot.contents snapshot
  let paths ← sortedPaths files
  let projectType ← (projectType.orElse (.str "auto")).textFor "lower"
  return ofProject projectType (← paths.mapM (·.textFor "replace")) contents

def Stage.locations : Stage where
  name := "key-locations"
  reads := ["file_system", "_file_contents"]
  provides := ["key_locations"]
  run context snapshot := .ofResult do
    let found ← Locations.ofSnapshot context.project.projectType snapshot
    return [("key_locations", found.toValue)]

def Assessment.ofSnapshot (card : Scorecard Quantity) (snapshot : Value) :
    Except ValueFault Value := do
  let issues ← Snapshot.partField snapshot "code_quality" "issues"
  let files ← Snapshot.files snapshot
  let outlined ← (← (← Snapshot.outlines snapshot).members).mapM (·.entry "path")
  evaluate card issues files (.list outlined) (← Snapshot.contents snapshot)

def Stage.score : Stage where
  name := "code-score"
  reads := ["file_system", "_file_contents", "code_structure", "code_quality"]
  provides := ["code_score"]
  run _ snapshot := .ofResult do
    return [("code_score", ← Assessment.ofSnapshot Scorecard.standard snapshot)]

/-- The built-in stages; each reads only what earlier ones provide. -/
def builtinStages : List Stage :=
  [.cataloguing, .stackProfile, .structureScan, .qualityScan, .locations, .score]

def builtinRegistrations : List Registration :=
  builtinStages.map fun s => ⟨s.name, .stage s⟩

end Surveyor
