import Surveyor.Catalog.Timestamp
import Surveyor.Command.Request
import Surveyor.FileTree.Write
import Surveyor.Pipeline.Engine

/-! # Running a command

`execute` carries out the arguments of the program. What the log shows depends on how verbose the
program is asked to be; a log file is given all of it. A report that is written into the project is
kept out of its analysis, so that a second one finds the same.
-/

namespace Surveyor.Command

/-- Text for a file: the whole of it, or more at its end. -/
structure FileText where
  path : String
  text : String
  appends : Bool
  deriving DecidableEq, Repr

structure Outcome where
  status : Nat
  stdout : String
  stderr : String
  /-- The files it has written, and the tree with them. -/
  written : List FileText
  tree : FileTree

/-- Why a command breaks off without an outcome. -/
inductive CommandError where
  | run (fault : RunError)
  | report (fault : MarkdownError)
  | write (path : String) (fault : WriteFault)
  /-- Links on the way to a path lead around in a circle. -/
  | circularLink (path : String)
  /-- A path that is asked for is left out. -/
  | noPath
  deriving DecidableEq, Repr

def CommandError.message : CommandError → String
  | .run fault => fault.message
  | .report _ => "the report cannot be shown"
  | .write path fault => path ++ ": " ++ fault.reason
  | .circularLink path => "Symlink loop from " ++ quoted path
  | .noPath => "a path is left out"

/-! ## Paths -/

def PathChoice.path? : PathChoice → Except CommandError (Option String)
  | .notAsked => .ok none
  | .path name => .ok (some name)
  | .leftOut => .error .noPath

/-- A path as it is shown: without what says nothing in it. -/
def shownPath (path : String) : String :=
  let start :=
    if Text.hasPrefix path "//" && !Text.hasPrefix path "///" then "//"
    else if Text.hasPrefix path "/" then "/"
    else ""
  let shown := start ++ Text.join "/" (pathNames path)
  if shown.isEmpty then "." else shown

/-- The way from a directory down to a place; nothing if the place is not inside. -/
def wayDown? (directory place : List String) : Option (List String) :=
  if directory.isPrefixOf place then some (place.drop directory.length) else none

/-- The canonical place of a path; none if it lies outside of the tree. -/
def placeOf (around : Surroundings) (path : String) : Except CommandError (Option (List String)) :=
  match around.tree.names? around.here path with
  | none => .ok none
  | some names =>
    match around.tree.realPath? names with
    | some place => .ok (some place)
    | none => .error (.circularLink (around.tree.absolute names))

/-- What the analysis of a root leaves out for the sake of a report that is written inside. -/
def reservedPaths (around : Surroundings) (root : String) (output : Option String) :
    Except CommandError (List String) := do
  match output with
  | none => return []
  | some path =>
    match ← placeOf around path, ← placeOf around root with
    | some file, some directory =>
      match wayDown? directory file with
      | none | some [] => return []
      | some names => return [Text.join "/" names]
    | _, _ => return []

/-- A path as the user is told it: from the directory where the program runs, if it is inside. -/
def toldPath (around : Surroundings) (path : String) : Except CommandError String := do
  match (← placeOf around path).bind (wayDown? around.here) with
  | some [] => return "."
  | some names => return Text.join "/" names
  | none => return shownPath path

/-! ## Files -/

/-- The tree with a text at the names of a path, and with the directories that it needs. A text that
is added at the end goes where the path is spelt. -/
def changeTree (tree : FileTree) (now : Int) (file : FileText) (names : List String) :
    Except WriteFault FileTree := do
  let tree ← tree.makeDirectories names.dropLast.reverse
  if file.appends then
    tree.changeFile (FileTree.spelledNames names) (fun bytes => bytes ++ file.text.toUTF8) now
  else tree.changeFile names (fun _ => file.text.toUTF8) now

def writeText (around : Surroundings) (file : FileText) : Except CommandError Surroundings :=
  match around.tree.names? around.here file.path with
  | none => .ok around
  | some names =>
    match changeTree around.tree around.now file names with
    | .ok tree => .ok { around with tree := tree }
    | .error fault => .error (.write file.path fault)

def writeAll (around : Surroundings) : List FileText → Except CommandError Surroundings
  | [] => .ok around
  | file :: rest => do writeAll (← writeText around file) rest

/-! ## Logs -/

def consoleLevel (request : AnalyzeRequest) : LogLevel :=
  if request.verbose then .debug else if request.quiet then .warning else .info

def consoleLine (record : LogRecord) : String :=
  "[" ++ programName ++ "] " ++ record.level.label ++ " " ++ record.message ++ "\n"

def consoleText (level : LogLevel) (log : List LogRecord) : String :=
  String.join ((log.filter fun record => level.number ≤ record.level.number).map consoleLine)

def fileLine (now : Int) (record : LogRecord) : String :=
  Timestamp.logText now ++ " " ++ record.level.label ++ " " ++ record.logger programName ++ ": "
    ++ record.message ++ "\n"

def logText (around : Surroundings) (path : String) (log : List LogRecord) : FileText :=
  ⟨path, String.join (log.map (fileLine around.now)), true⟩

/-! ## The analysis -/

def requestedProject (request : AnalyzeRequest) (reserved : List String) : Project where
  rootPath := request.path
  excludedFolders := .strings (request.excluded ++ reserved)
  projectType := .str request.projectType
  framework := .ofOption request.framework

/-- Is the cause of a run without a report told to the user? -/
def isTold : RunError → Bool
  | .precondition _ | .cancelled _ => true
  | .settings fault => fault.isTolerated
  | .discovery _ | .order _ | .record _ | .clock _ | .noHome | .nameTooLong => false

def quietListener : Listener := ⟨fun _ _ => {}⟩

def deliver (around : Surroundings) (output : Option String) (text : String) :
    Except CommandError (String × List FileText) := do
  match output with
  | none => return (text, [])
  | some path => return ("Report written to " ++ (← toldPath around path) ++ "\n", [⟨path, text, false⟩])

/-- Analyses a project as requested. The stages are timed by `readings` of a clock. -/
def analyze (around : Surroundings) (readings : List Quantity) (request : AnalyzeRequest) :
    Except CommandError Outcome := do
  let logFile ← request.logFile.path?
  let output ← request.output.path?
  let opened := logFile.toList.map fun path => logText around path []
  let around ← writeAll around opened
  let reserved ← reservedPaths around request.path output
  let run := Surveyor.analyze around {} (requestedProject request reserved)
    (.start (some quietListener) false readings)
  let log := logWithProgress run.journal
  let logged := logFile.toList.map fun path => logText around path log
  let around ← writeAll around logged
  let console := consoleText (consoleLevel request) log
  match run.result with
  | .error fault =>
    if isTold fault then
      let told := programName ++ " analyze failed: " ++ fault.message ++ "\n"
      return ⟨1, "", console ++ told, logged, around.tree⟩
    else .error (.run fault)
  | .ok report =>
    let text ← (request.format.render (.map report)).mapError .report
    let (stdout, files) ← deliver around output text
    let around ← writeAll around files
    return ⟨0, stdout, console, logged ++ files, around.tree⟩

/-! ## The program -/

def usage (program : String) : String := "usage: " ++ program ++ " [-h] [-v] ...\n"

/-- How the reading of arguments ends the program. -/
def Stop.outcome (tree : FileTree) : Stop → Outcome
  | .help program => ⟨0, usage program, "", [], tree⟩
  | .refused program fault =>
    ⟨2, "", usage program ++ program ++ ": error: " ++ fault.message ++ "\n", [], tree⟩

/-- What becomes of a call of the program. -/
inductive Reply where
  | done (outcome : Outcome)
  | serve (request : ServeRequest)

def execute (around : Surroundings) (readings : List Quantity) (arguments : List String) :
    Except CommandError Reply :=
  match Request.read arguments with
  | .error stop => .ok (.done (stop.outcome around.tree))
  | .ok (.analyze request) => (analyze around readings request).map .done
  | .ok (.serve request) => .ok (.serve request)

end Surveyor.Command
