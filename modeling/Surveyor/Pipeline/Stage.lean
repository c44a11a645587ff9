import Surveyor.FileTree.Basic
import Surveyor.Pipeline.Journal
import Surveyor.Project

/-! # Stages

A stage turns a frozen snapshot of the report so far into a delta. On its way it takes steps:
reports of progress, checkpoints at which a pending cancellation is honoured, and log records.
-/

namespace Surveyor

inductive Step where
  /-- A report of progress, under the name of a phase or else of the stage. -/
  | report (current total detail phase : Value)
  | checkpoint
  | log (record : LogRecord)
  deriving Repr

/-- Why a stage failed: the name of the kind of failure, and a text that may be empty. -/
structure StageFailure where
  kind : String
  text : String
  deriving DecidableEq, Repr

/-- The text of a failure, or its kind if it has none. -/
def StageFailure.message (f : StageFailure) : String := if f.text.isEmpty then f.kind else f.text

def StageFailure.ofFault (fault : ValueFault) : StageFailure :=
  let kind := match fault with
    | .missingKey _ => "KeyError"
    | .outOfRange _ => "IndexError"
    | .wrongKind _ => "TypeError"
    | .noOperation _ _ => "AttributeError"
    | .invalid _ => "ValueError"
    | .tooLarge _ => "OverflowError"
  ⟨kind, fault.message⟩

inductive StageResult where
  | delta (entries : Entries)
  /-- A result that is no mapping contributes nothing. -/
  | noDelta
  | failed (failure : StageFailure)
  /-- The analysis cannot go on at all. -/
  | refused (message : String)
  /-- The stage itself cancels the analysis. -/
  | cancelled (message : String)

structure StageRun where
  steps : List Step
  result : StageResult

/-- What a stage is handed beside its snapshot. -/
structure StageContext where
  project : Project
  settings : Settings
  tree : FileTree
  /-- The time of the analysis in microseconds since 1970. -/
  now : Int

structure Stage where
  name : String
  reads : List String
  provides : List String
  run : StageContext → Value → StageRun

/-- Reports on the paths of a phase, as often as the interval says. -/
def reportSteps (interval : Int) (phase : String) (paths : List String) : List Step :=
  (paths.zipIdx 1).filterMap fun (path, index) =>
    if isReported interval index paths.length then
      some (.report (.ofNat index) (.ofNat paths.length) (.str path) (.str phase))
    else none

end Surveyor
