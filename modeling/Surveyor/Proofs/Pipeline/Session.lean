import Surveyor.Pipeline.Session

/-! # Sessions that nobody cancels

A session is steady if its listener never asks for a cancellation and its clock gives known readings
only. Everything that a run does to a session keeps it steady, and of all that is noted in its
journal only `announceStage` adds an invocation.
-/

namespace Surveyor

def invocations (journal : List Happening) : List (String × Value) :=
  journal.filterMap fun
    | .invoked stage snapshot => some (stage, snapshot)
    | _ => none

namespace Session

def invoked (s : Session) : List (String × Value) := invocations s.journal

/-- The readings that the clock can still give. -/
def times (s : Session) : List Quantity :=
  if s.readings.isEmpty then [.double 0.0] else s.readings

structure Steady (clock : List Quantity) (s : Session) : Prop where
  notCancelled : s.isCancelled = false
  neverCancels : ∀ listener, s.listener = some listener →
    ∀ earlier event, (listener.react earlier event).cancels = false
  ticks : ∀ time ∈ s.times, time ∈ clock

/-- Any two readings are numbers with a difference that can be told in milliseconds. -/
def TellsTime (clock : List Quantity) : Prop :=
  ∀ started ∈ clock, ∀ ended ∈ clock, ∃ duration, elapsedMs started ended = .ok duration

/-! ## What is noted -/

theorem journal_note (s : Session) (h : Happening) : (s.note h).journal = s.journal ++ [h] := by
  simp [journal, note]

theorem invoked_note_logged (s : Session) (record : LogRecord) :
    (s.note (.logged record)).invoked = s.invoked := by
  simp [invoked, journal_note, invocations]

theorem invoked_note_invoked (s : Session) (stage : String) (snapshot : Value) :
    (s.note (.invoked stage snapshot)).invoked = s.invoked ++ [(stage, snapshot)] := by
  simp [invoked, journal_note, invocations]

theorem invoked_log (s : Session) (level : LogLevel) (message : String) :
    (s.log level message).invoked = s.invoked :=
  invoked_note_logged s _

theorem invoked_deliver (s : Session) (event : ProgressEvent) :
    (s.deliver event).invoked = s.invoked := by
  unfold deliver
  cases s.listener with
  | none => rfl
  | some listener =>
    simp only
    split
    · rw [invoked_log]
      simp [invoked, journal, note, invocations]
    · simp [invoked, journal, note, invocations]

theorem invoked_readClock (s : Session) : s.readClock.2.invoked = s.invoked := by
  unfold readClock
  split <;> rfl

/-! ## What keeps a session steady -/

namespace Steady

variable {clock : List Quantity} {s : Session}

theorem note (steady : Steady clock s) (h : Happening) : Steady clock (s.note h) :=
  ⟨steady.notCancelled, steady.neverCancels, steady.ticks⟩

theorem log (steady : Steady clock s) (level : LogLevel) (message : String) :
    Steady clock (s.log level message) :=
  steady.note _

theorem deliver (steady : Steady clock s) (event : ProgressEvent) :
    Steady clock (s.deliver event) := by
  unfold Session.deliver
  cases listens : s.listener with
  | none => exact steady
  | some listener =>
    -- A listener that fails is logged; what counts is that it does not cancel.
    have calm := steady.neverCancels listener listens s.delivered event
    have delivered : Steady clock { s.note (.delivered event) with
        delivered := event :: s.delivered
        isCancelled := s.isCancelled || (listener.react s.delivered event).cancels } :=
      ⟨by simp [steady.notCancelled, calm], steady.neverCancels, steady.ticks⟩
    simp only
    split
    · exact delivered.log _ _
    · exact delivered

theorem readClock (steady : Steady clock s) : Steady clock s.readClock.2 := by
  refine ⟨?_, ?_, ?_⟩
  · unfold Session.readClock
    split <;> exact steady.notCancelled
  · unfold Session.readClock
    split <;> exact steady.neverCancels
  · intro time member
    have ticks := steady.ticks
    unfold Session.readClock at member
    split at member
    · exact ticks time member
    · exact ticks time member
    · next first rest nonempty several =>
      -- The last reading is not used up, so there is one left here.
      cases rest with
      | nil => exact (nonempty rfl).elim
      | cons second later =>
        apply ticks
        simp only [times, List.isEmpty_cons, Bool.false_eq_true, ↓reduceIte] at member
        simpa [times, several] using .inr (by simpa using member)

/-- The reading itself is among the known ones. -/
theorem reading_mem (steady : Steady clock s) : s.readClock.1 ∈ clock := by
  have ticks := steady.ticks
  unfold Session.readClock
  split <;> exact ticks _ (by simp [times, *])

/-- Without a cancellation all steps are taken, and none of them invokes a stage. -/
theorem take (steady : Steady clock s) (stage : String) (steps : List Step) :
    ∃ after, s.take stage steps = (after, true) ∧ Steady clock after
      ∧ after.invoked = s.invoked := by
  induction steps generalizing s with
  | nil => exact ⟨s, rfl, steady, rfl⟩
  | cons step rest inductionHypothesis =>
    cases step with
    | log record =>
      obtain ⟨after, taken, steadyAfter, same⟩ := inductionHypothesis (steady.note (.logged record))
      exact ⟨after, taken, steadyAfter, same.trans (invoked_note_logged s record)⟩
    -- Only here and at a report could a cancellation end the steps.
    | checkpoint =>
      obtain ⟨after, taken, steadyAfter, same⟩ := inductionHypothesis steady
      refine ⟨after, ?_, steadyAfter, same⟩
      simpa [Session.take, steady.notCancelled] using taken
    | report current total detail phase =>
      obtain ⟨after, taken, steadyAfter, same⟩ :=
        inductionHypothesis (steady.deliver (reportEvent stage current total detail phase))
      refine ⟨after, ?_, steadyAfter, same.trans (invoked_deliver s _)⟩
      simpa [Session.take, steady.notCancelled] using taken

end Steady

end Session

end Surveyor
