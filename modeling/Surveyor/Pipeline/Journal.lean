import Surveyor.Value.Access
import Surveyor.Value.Display
import Surveyor.Value.Quantity

/-! # The journal of an analysis

Everything that can be seen of an analysis while it goes on, in the order in which it happens: log
records, delivered events and invocations of stages. Stages report progress as events. Whoever listens to
them may ask for the analysis to be cancelled while an event is delivered, and a listener that fails is
not an obstacle to the analysis.
-/

namespace Surveyor

/-! ## Progress -/

/-- A notice of progress: how far a stage, or a phase of it, has come. -/
structure ProgressEvent where
  stage : Value
  current : Value
  total : Value
  detail : Value
  deriving Repr

namespace ProgressEvent

def toValue (e : ProgressEvent) : Value :=
  .map [("stage", e.stage), ("current", e.current), ("total", e.total), ("detail", e.detail)]

/-- `3/7`, or `3` if no total is known. -/
def position (e : ProgressEvent) : String :=
  if e.total.isGiven then e.current.display ++ "/" ++ e.total.display else e.current.display

def message (e : ProgressEvent) : String :=
  let line := e.stage.display ++ " " ++ e.position
  if e.detail.isGiven then line ++ ": " ++ e.detail.display else line

end ProgressEvent

structure Reaction where
  /-- It asks for the analysis to be cancelled. -/
  cancels : Bool := false
  /-- It fails with this text. -/
  failure : Option String := none

/-- A listener reacts to an event, given the events delivered before it (latest first). -/
structure Listener where
  react : List ProgressEvent → ProgressEvent → Reaction

/-- Is progress reported at the position `index` of `total`? At the last one, and at every multiple
of the interval if that is positive. -/
def isReported (interval index total : Int) : Bool :=
  index == total || (0 < interval && index % interval == 0)

/-- Is progress reported at a position of any kind? The interval is looked at before the last one. -/
def isReportedAt (interval : Except ValueFault Int) (index total : Value) :
    Except ValueFault Bool := do
  if index.same total then return true
  else
    let n ← interval
    if 0 < n then index.isMultipleOf n else return false

/-! ## The journal -/

inductive LogLevel where
  | debug
  | info
  | warning
  | error
  deriving DecidableEq, Repr

namespace LogLevel

def label : LogLevel → String
  | .debug => "DEBUG"
  | .info => "INFO"
  | .warning => "WARNING"
  | .error => "ERROR"

/-- The number of a level, by which levels are compared. -/
def number : LogLevel → Int
  | .debug => 10
  | .info => 20
  | .warning => 30
  | .error => 40

def numbersByName : List (String × Int) :=
  [("CRITICAL", 50), ("FATAL", 50), ("ERROR", 40), ("WARNING", 30), ("WARN", 30), ("INFO", 20),
    ("DEBUG", 10), ("NOTSET", 0)]

def numberOf : Value → Except ValueFault Int
  | .str name =>
    match numbersByName.lookup name with
    | some n => .ok n
    | none => .error (.invalid ("Unknown level: " ++ quoted name))
  | .int n => .ok n
  | .bool b => .ok (Value.bool b).asInt
  | other =>
    .error (.wrongKind ("Level not an integer or a valid string: " ++ other.displayQuoted))

/-- Does a log of a least level show records of a level? Without a least level of its own, it shows
warnings and what is worse. -/
def isShown (least : Int) (level : LogLevel) : Bool :=
  (if least == 0 then LogLevel.warning.number else least) ≤ level.number

end LogLevel

structure LogRecord where
  component : String
  level : LogLevel
  message : String
  deriving DecidableEq, Repr

/-- The name of the log that a record belongs to, below that of a program. -/
def LogRecord.logger (record : LogRecord) (program : String) : String :=
  if record.component.isEmpty then program else program ++ "." ++ record.component

inductive Happening where
  | logged (record : LogRecord)
  | delivered (event : ProgressEvent)
  /-- A stage is invoked on a snapshot. -/
  | invoked (stage : String) (snapshot : Value)

def deliveredEvents (journal : List Happening) : List ProgressEvent :=
  journal.filterMap fun
    | .delivered event => some event
    | _ => none

def ProgressEvent.record (e : ProgressEvent) (component : String) : LogRecord :=
  ⟨component, .debug, e.message⟩

def logWithProgress (journal : List Happening) : List LogRecord :=
  journal.filterMap fun
    | .logged record => some record
    | .delivered event => some (event.record "progress")
    | .invoked _ _ => none

end Surveyor
