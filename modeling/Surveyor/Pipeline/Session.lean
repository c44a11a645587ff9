import Surveyor.Pipeline.Stage
import Surveyor.Value.Quantity

/-! # Sessions

A session is an analysis in progress, seen from outside: what has happened so far, whether the
listener has asked for a cancellation, and the readings that the clock will give. A pending
cancellation is noticed at the next checkpoint or report, before anything else is delivered.
-/

namespace Surveyor

structure Session where
  listener : Option Listener
  /-- What has happened, the latest first. -/
  happened : List Happening
  /-- The events delivered, the latest first. -/
  delivered : List ProgressEvent
  isCancelled : Bool
  /-- The coming readings of the clock in seconds; the last one repeats. -/
  readings : List Quantity

namespace Session

def start (listener : Option Listener) (isCancelled : Bool) (readings : List Quantity) : Session :=
  ⟨listener, [], [], isCancelled, readings⟩

/-- What has happened, the earliest first. -/
def journal (s : Session) : List Happening := s.happened.reverse

def note (s : Session) (h : Happening) : Session := { s with happened := h :: s.happened }

def log (s : Session) (level : LogLevel) (message : String) : Session :=
  s.note (.logged ⟨"engine", level, message⟩)

/-- Delivers an event; a listener that fails is noted in the log and otherwise ignored. -/
def deliver (s : Session) (event : ProgressEvent) : Session :=
  match s.listener with
  | none => s
  | some listener =>
    let reaction := listener.react s.delivered event
    let s := { s.note (.delivered event) with
      delivered := event :: s.delivered
      isCancelled := s.isCancelled || reaction.cancels }
    match reaction.failure with
    | some text => s.log .debug ("Progress callback raised " ++ text ++ "; ignoring")
    | none => s

def readClock (s : Session) : Quantity × Session :=
  match s.readings with
  | [] => (.double 0.0, s)
  | [last] => (last, s)
  | first :: rest => (first, { s with readings := rest })

/-- The milliseconds between two readings, to the nearest whole number. -/
def elapsedMs (started ended : Quantity) : Except ValueFault Int :=
  ((ended.sub started).mul (.whole 1000)).nearestWhole

/-- The event of a report; an empty phase counts as none. -/
def reportEvent (stage : String) (current total detail phase : Value) : ProgressEvent :=
  ⟨phase.orElse (.str stage), current, total, detail⟩

/-- Takes the steps of a stage in order, up to the first at which a cancellation is noticed; whether
all were taken. -/
def take (stage : String) : List Step → Session → Session × Bool
  | [], s => (s, true)
  | .log record :: rest, s => take stage rest (s.note (.logged record))
  | .checkpoint :: rest, s => if s.isCancelled then (s, false) else take stage rest s
  | .report current total detail phase :: rest, s =>
    if s.isCancelled then (s, false)
    else take stage rest (s.deliver (reportEvent stage current total detail phase))

end Session

end Surveyor
