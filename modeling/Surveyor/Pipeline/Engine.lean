import Surveyor.Pipeline.Discovery
import Surveyor.Pipeline.Order
import Surveyor.Pipeline.Record
import Surveyor.Pipeline.Session
import Surveyor.Settings.Load

/-! # Running a pipeline

The stages run in order. Each sees a frozen snapshot of what it reads, and its delta is merged into
the report. A stage that fails is entered in the record and changes nothing else; a precondition
that does not hold, a cancellation and a delta that cannot be merged end the run.
-/

namespace Surveyor

inductive RunError where
  | precondition (message : String)
  | cancelled (message : String)
  | settings (fault : SettingsError)
  | discovery (fault : DiscoveryError)
  | order (fault : OrderError)
  /-- What a stage has returned cannot be entered in the report, or has damaged the record of the run. -/
  | record (fault : RecordFault)
  /-- The clock does not tell how long something took. -/
  | clock (fault : ValueFault)
  /-- The root is looked for in the home directory of somebody unknown. -/
  | noHome
  /-- A name on the way to the root is too long. -/
  | nameTooLong
  deriving DecidableEq, Repr

def RunError.message : RunError → String
  | .precondition message | .cancelled message => message
  | .settings fault => fault.message
  | .discovery fault => fault.message
  | .order fault => fault.message
  | .record _ => ""
  | .clock fault => fault.message
  | .noHome => "Could not determine home directory."
  | .nameTooLong => "File name too long"

def cancelledDuring (stage : String) : RunError :=
  .cancelled ("Analysis cancelled during " ++ stage)

structure Surroundings where
  tree : FileTree
  /-- The directory that relative paths start from. -/
  here : List String
  /-- The home directory of somebody, who is oneself if the name is empty. -/
  home : String → Option String
  /-- The type of project that the environment asks for. -/
  projectType : Option String
  /-- The time in microseconds since 1970, and as it is entered in the record. -/
  now : Int
  analyzedAt : String
  /-- The stages to choose from. -/
  registrations : List Registration
  /-- How the text of a settings file is read. -/
  readYaml : Yaml.Loader

/-- What replaces the settings and stages a run would find by itself. -/
structure Overrides where
  settings : Option Settings := none
  stages : Option (List Stage) := none

structure Run where
  journal : List Happening
  result : Except RunError Entries

/-! ## Stages -/

/-- The report after a stage, and the text of its failure if it failed. -/
def settle (report : Entries) : StageResult → Except RunError (Entries × Option StageFailure)
  | .delta entries => do return (← (report.merge entries).mapError (.record ∘ .unmerged), none)
  | .noDelta => .ok (report, none)
  | .failed failure => .ok (report, some failure)
  | .refused message => .error (.precondition message)
  | .cancelled message => .error (.cancelled message)

def Session.logFailure (s : Session) (stage : String) (failure : Option StageFailure) : Session :=
  match failure with
  | some f => s.log .error ("Stage " ++ stage ++ " failed: " ++ f.text)
  | none => s

def announceStage (stage : Stage) (index total : Nat) (snapshot : Value) (s : Session) :
    Quantity × Session :=
  let s := s.deliver ⟨.str stage.name, .ofNat index, .ofNat total, .str "running"⟩
  let (started, s) := (s.log .debug ("Running stage " ++ stage.name)).readClock
  (started, s.note (.invoked stage.name snapshot))

def runStage (context : StageContext) (stage : Stage) (index total : Nat) (report : Entries)
    (s : Session) : Session × Except RunError Entries :=
  if s.isCancelled then (s, .error (cancelledDuring stage.name))
  else
    let snapshot := (Value.map (restrict report stage.reads)).freeze
    let (started, s) := announceStage stage index total snapshot s
    let run := stage.run context snapshot
    match s.take stage.name run.steps with
    | (s, false) => (s, .error (cancelledDuring stage.name))
    | (s, true) =>
      match settle report run.result with
      | .error e => (s, .error e)
      | .ok (report, failure) =>
        let (ended, s) := (s.logFailure stage.name failure).readClock
        match Session.elapsedMs started ended with
        | .error fault => (s, .error (.clock fault))
        | .ok duration =>
          let layer : LayerRecord := ⟨stage.name, duration, failure.map StageFailure.message⟩
          (s, (appendLayer report layer).mapError .record)

def runStages (context : StageContext) (total : Nat) :
    List Stage → Nat → Entries → Session → Session × Except RunError Entries
  | [], _, report, s => (s, .ok report)
  | stage :: rest, index, report, s =>
    match runStage context stage index total report s with
    | (s, .error e) => (s, .error e)
    | (s, .ok report) => runStages context total rest (index + 1) report s

/-- Enters the duration of the run and publishes the report. -/
def finishRun (started : Quantity) (report : Entries) (s : Session) :
    Session × Except RunError Entries :=
  let (ended, s) := s.readClock
  match Session.elapsedMs started ended with
  | .error fault => (s, .error (.clock fault))
  | .ok duration =>
    match finishRecord report duration with
    | .error e => (s, .error (.record e))
    | .ok (report, failed) =>
      let s :=
        if failed.isEmpty then s.log .info ("Analysis finished in " ++ toString duration ++ " ms")
        else
          s.log .warning ("Analysis finished with failed stages: " ++ Text.join ", " failed)
      (s, .ok (Value.publishEntries report))

def runPipeline (context : StageContext) (analyzedAt : String) (stages : List Stage) (s : Session) :
    Session × Except RunError Entries :=
  let root := context.project.rootPath
  let s := s.log .info
    ("Starting analysis of " ++ root ++ " (" ++ toString stages.length ++ " stages)")
  let (started, s) := s.readClock
  let report := initialReport context.project.displayName root analyzedAt
  match runStages context stages.length stages 1 report s with
  | (s, .error e) => (s, .error e)
  | (s, .ok report) => finishRun started report s

/-! ## Before the first stage -/

/-- Whose home directory a relative path starts from, and the names after it. A tilde stands in front
of the name of the owner, which is empty for one's own. -/
def homeStart? (path : String) : Option (String × List String) :=
  match Text.hasPrefix path "/", pathNames path with
  | false, first :: rest =>
    match first.toList with
    | '~' :: owner => some (String.ofList owner, rest)
    | _ => none
  | _, _ => none

/-- The path with the home directory that it starts from. -/
def expandHome (home : String → Option String) (path : String) : Except RunError String :=
  match homeStart? path with
  | none => .ok path
  | some (owner, names) =>
    match home owner with
    | none => .error .noHome
    | some directory =>
      let bare := String.ofList (Text.dropRightWhile (· == '/') directory.toList)
      if Text.hasPrefix bare "~" then .error .noHome
      else if bare.isEmpty && names.isEmpty then .ok "/"
      else .ok (Text.join "/" (bare :: names))

/-- The canonical place of a root that is a directory. -/
def checkRoot (around : Surroundings) (path : String) : Except RunError (List String) := do
  if path.isEmpty then .error (.precondition "Root path is required")
  else
    let root ← expandHome around.home path
    match (around.tree.names? around.here root).bind around.tree.find? with
    | none =>
      if around.tree.isTooLong around.here root then .error .nameTooLong
      else .error (.precondition ("Root path does not exist: " ++ path))
    | some (place, .directory _) => return place
    | some _ => .error (.precondition ("Root path is not a directory: " ++ path))

/-- The settings of a run; a settings file that cannot be made sense of is ignored. -/
def chooseSettings (around : Surroundings) (place : List String) (given : Option Settings)
    (s : Session) : Session × Except RunError Settings :=
  match given with
  | some settings => (s, .ok settings)
  | none =>
    match Settings.load around.readYaml around.tree place around.projectType with
    | .ok settings => (s, .ok settings)
    | .error fault =>
      if fault.isTolerated then
        (s.log .warning ("Ignoring invalid configuration: " ++ fault.message),
          .ok { root := around.tree.absolute place })
      else (s, .error (.settings fault))

def chooseStages (around : Surroundings) (settings : Settings) (given : Option (List Stage)) :
    Except RunError (List Stage) := do
  let stages ←
    match given with
    | some stages => pure stages
    | none =>
      let enabled := if settings.enabledStages.isEmpty then none else some settings.enabledStages
      (discoverStages around.registrations enabled).mapError .discovery
  match orderError? stages with
  | some fault => .error (.order fault)
  | none => return stages

def analyze (around : Surroundings) (overrides : Overrides) (project : Project) (s : Session) : Run :=
  match checkRoot around project.rootPath with
  | .error e => ⟨s.journal, .error e⟩
  | .ok place =>
    match chooseSettings around place overrides.settings s with
    | (s, .error e) => ⟨s.journal, .error e⟩
    | (s, .ok settings) =>
      match chooseStages around settings overrides.stages with
      | .error e => ⟨s.journal, .error e⟩
      | .ok stages =>
        let root := around.tree.absolute place
        let context : StageContext :=
          ⟨project.effective root settings, settings, around.tree, around.now⟩
        let (s, result) := runPipeline context around.analyzedAt stages s
        ⟨s.journal, result⟩

end Surveyor
