import Mathlib.Data.List.DropRight
import Surveyor.Proofs.Pipeline.Listeners

/-! # What a journal says about cancellations

A cancellation is asked for before an analysis begins, or by the listener while an event is delivered.
From then on no event is delivered, and at most the stage that this very event announces is still
invoked: the journal is heeded (`Heeded`). `Obedient` ties a session to its journal. Everything that a
run does keeps it, since the flag is looked at before a stage is announced and before a stage reports
(`Obedient.runPipeline`).
-/

namespace Surveyor

def Stage.announcement (stage : Stage) (index total : Nat) : ProgressEvent :=
  ⟨.str stage.name, .ofNat index, .ofNat total, .str "running"⟩

/-- A cancellation was asked for before or during the happenings of a journal. -/
def Analysis.AskedIn (a : Analysis) (journal : List Happening) : Prop :=
  a.isCancelled = true ∨ ∃ listener before event after, a.listener = some listener
    ∧ journal = before ++ .delivered event :: after
    ∧ (listener.react (deliveredEvents before).reverse event).cancels = true

/-- The latest event announces a stage of the given name, which is the next one to be invoked. -/
def Announced (stages : List Stage) (journal : List Happening) (name : String) : Prop :=
  ∃ stage before logs,
    stages[(invocations journal).length]? = some stage ∧ stage.name = name
      ∧ journal = before
        ++ .delivered (stage.announcement ((invocations journal).length + 1) stages.length) :: logs
      ∧ ∀ happening ∈ logs, happening.isLogged = true

/-- Once a cancellation was asked for, no event is delivered, and no stage is invoked but the one that
the latest event announces. -/
structure Heeded (a : Analysis) (stages : List Stage) (journal : List Happening) : Prop where
  delivered : ∀ before event after,
    journal = before ++ .delivered event :: after → ¬ a.AskedIn before
  invoked : ∀ before name snapshot after, journal = before ++ .invoked name snapshot :: after →
    a.AskedIn before → Announced stages before name

def Happening.isInvocation : Happening → Bool
  | .invoked _ _ => true
  | _ => false

def latestEvents (journal : List Happening) : List ProgressEvent :=
  deliveredEvents (journal.rtakeWhile (!·.isInvocation))

/-! ## Journals that grow -/

theorem append_singleton_eq_iff {α : Type} {front before after : List α} {latest x : α} :
    front ++ [latest] = before ++ x :: after ↔
      (before = front ∧ x = latest ∧ after = [])
        ∨ ∃ between, after = between ++ [latest] ∧ front = before ++ x :: between := by
  constructor
  · intro same
    rcases List.eq_nil_or_concat after with rfl | ⟨between, last, rfl⟩
    · obtain ⟨rfl, single⟩ := List.append_inj' same rfl
      exact .inl ⟨rfl, (List.cons.inj single).1.symm, rfl⟩
    · rw [List.concat_eq_append, ← List.cons_append, ← List.append_assoc] at same
      obtain ⟨rfl, single⟩ := List.append_inj' same rfl
      rw [← (List.cons.inj single).1]
      exact .inr ⟨between, List.concat_eq_append, rfl⟩
  · rintro (⟨rfl, rfl, rfl⟩ | ⟨between, rfl, rfl⟩)
    · rfl
    · simp

section

variable {a : Analysis} {stages : List Stage} {journal : List Happening}

theorem deliveredEvents_append (front behind : List Happening) :
    deliveredEvents (front ++ behind) = deliveredEvents front ++ deliveredEvents behind :=
  List.filterMap_append

theorem Analysis.askedIn_append_singleton {happening : Happening} :
    a.AskedIn (journal ++ [happening]) ↔ a.AskedIn journal
      ∨ ∃ listener event, a.listener = some listener ∧ happening = .delivered event
        ∧ (listener.react (deliveredEvents journal).reverse event).cancels = true := by
  constructor
  · rintro (before | ⟨listener, before, event, after, listens, split, cancels⟩)
    · exact .inl (.inl before)
    · rcases append_singleton_eq_iff.mp split with ⟨rfl, rfl, -⟩ | ⟨between, -, earlier⟩
      · exact .inr ⟨listener, event, listens, rfl, cancels⟩
      · exact .inl (.inr ⟨listener, before, event, between, listens, earlier, cancels⟩)
  · rintro ((before | ⟨listener, before, event, after, listens, split, cancels⟩)
      | ⟨listener, event, listens, rfl, cancels⟩)
    · exact .inl before
    · exact .inr ⟨listener, before, event, after ++ [happening], listens, by simp [split], cancels⟩
    · exact .inr ⟨listener, journal, event, [], listens, rfl, cancels⟩

theorem Heeded.append_singleton (heeded : Heeded a stages journal) {happening : Happening}
    (delivered : ∀ event, happening = .delivered event → ¬ a.AskedIn journal)
    (invoked : ∀ name snapshot, happening = .invoked name snapshot → a.AskedIn journal →
      Announced stages journal name) :
    Heeded a stages (journal ++ [happening]) where
  delivered := by
    intro before event after split
    rcases append_singleton_eq_iff.mp split with ⟨rfl, now, -⟩ | ⟨between, -, earlier⟩
    · exact delivered event now.symm
    · exact heeded.delivered before event between earlier
  invoked := by
    intro before name snapshot after split
    rcases append_singleton_eq_iff.mp split with ⟨rfl, now, -⟩ | ⟨between, -, earlier⟩
    · exact invoked name snapshot now.symm
    · exact heeded.invoked before name snapshot between earlier

end

/-! ## Sessions and their journals -/

namespace Session

theorem deliver_eq_self {s : Session} (deaf : s.listener = none) (event : ProgressEvent) :
    s.deliver event = s := by
  simp [deliver, deaf]

/-- An event is followed by nothing but the record of a listener that fails. -/
theorem journal_deliver {s : Session} {listener : Listener} (listens : s.listener = some listener)
    (event : ProgressEvent) :
    ∃ logs, (s.deliver event).journal = s.journal ++ .delivered event :: logs
      ∧ ∀ happening ∈ logs, happening.isLogged = true := by
  simp only [deliver, listens]
  split
  · next text _ =>
    refine ⟨[.logged ⟨"engine", .debug, "Progress callback raised " ++ text ++ "; ignoring"⟩], ?_, ?_⟩
    · simp [journal, log, note]
    · simp [Happening.isLogged]
  · exact ⟨[], by simp [journal, note], by simp⟩

theorem journal_readClock (s : Session) : s.readClock.2.journal = s.journal := by
  unfold readClock
  split <;> rfl

end Session

/-- A session of an analysis that knows its flag and its events, and whose journal is heeded. -/
structure Obedient (a : Analysis) (stages : List Stage) (s : Session) : Prop where
  listens : s.listener = a.listener
  remembers : s.delivered = (deliveredEvents s.journal).reverse
  flag : s.isCancelled = true ↔ a.AskedIn s.journal
  heeded : Heeded a stages s.journal

namespace Obedient

variable {a : Analysis} {stages : List Stage} {s : Session}

/-- Only an event can set the flag, and only an invocation has to be announced. -/
theorem note (obedient : Obedient a stages s) {happening : Happening}
    (noEvent : ∀ event, happening ≠ .delivered event)
    (announced : ∀ name snapshot, happening = .invoked name snapshot → s.isCancelled = true →
      Announced stages s.journal name) :
    Obedient a stages (s.note happening) where
  listens := obedient.listens
  remembers := by
    have none : deliveredEvents [happening] = [] := by
      cases happening with
      | delivered event => exact absurd rfl (noEvent event)
      | logged _ | invoked _ _ => rfl
    rw [Session.journal_note, deliveredEvents_append, none, List.append_nil]
    exact obedient.remembers
  flag := by
    rw [Session.journal_note, Analysis.askedIn_append_singleton]
    simpa [Session.note, noEvent] using obedient.flag
  heeded := by
    rw [Session.journal_note]
    refine obedient.heeded.append_singleton (fun event now => absurd now (noEvent event)) ?_
    intro name snapshot now asked
    exact announced name snapshot now (obedient.flag.mpr asked)

theorem note_logged (obedient : Obedient a stages s) (record : LogRecord) :
    Obedient a stages (s.note (.logged record)) :=
  obedient.note (by simp) (by simp)

theorem log (obedient : Obedient a stages s) (level : LogLevel) (message : String) :
    Obedient a stages (s.log level message) :=
  obedient.note_logged _

theorem readClock (obedient : Obedient a stages s) : Obedient a stages s.readClock.2 := by
  unfold Session.readClock
  split <;> exact ⟨obedient.listens, obedient.remembers, obedient.flag, obedient.heeded⟩

theorem deliver (obedient : Obedient a stages s) (unset : s.isCancelled = false)
    (event : ProgressEvent) : Obedient a stages (s.deliver event) := by
  unfold Session.deliver
  cases listens : s.listener with
  | none => exact obedient
  | some listener =>
    have listened : a.listener = some listener := obedient.listens.symm.trans listens
    -- The flag is set exactly if the listener asked by now, this event included.
    have delivered : Obedient a stages { s.note (.delivered event) with
        delivered := event :: s.delivered
        isCancelled := s.isCancelled || (listener.react s.delivered event).cancels } :=
      { listens := obedient.listens
        remembers := by
          show event :: s.delivered = (deliveredEvents (s.note (.delivered event)).journal).reverse
          rw [Session.journal_note, deliveredEvents_append, obedient.remembers]
          simp [deliveredEvents]
        flag := by
          show (s.isCancelled || (listener.react s.delivered event).cancels) = true
            ↔ a.AskedIn (s.note (.delivered event)).journal
          rw [Session.journal_note, Analysis.askedIn_append_singleton, Bool.or_eq_true,
            obedient.flag, obedient.remembers]
          simp [listened]
        heeded := by
          show Heeded a stages (s.note (.delivered event)).journal
          rw [Session.journal_note]
          refine obedient.heeded.append_singleton (fun _ _ asked => ?_) (by simp)
          rw [obedient.flag.mpr asked] at unset
          cases unset }
    simp only
    split
    · exact delivered.log _ _
    · exact delivered

theorem take (obedient : Obedient a stages s) (stage : String) (steps : List Step) :
    Obedient a stages (s.take stage steps).1 := by
  induction steps generalizing s with
  | nil => exact obedient
  | cons step rest inductionHypothesis =>
    cases step with
    | log record => exact inductionHypothesis (obedient.note_logged record)
    | checkpoint =>
      rw [Session.take]
      split
      · exact obedient
      · exact inductionHypothesis obedient
    | report current total detail phase =>
      rw [Session.take]
      split
      · exact obedient
      · next unset => exact inductionHypothesis (obedient.deliver (by simpa using unset) _)

variable {stage : Stage} {index : Nat}

/-- The announcement is delivered while nobody has asked for a cancellation; it may be what does. -/
theorem announceStage (obedient : Obedient a stages s) (unset : s.isCancelled = false)
    (next : stages[s.invoked.length]? = some stage) (position : index = s.invoked.length + 1)
    (snapshot : Value) :
    Obedient a stages (announceStage stage index stages.length snapshot s).2 := by
  let announced := (s.deliver (stage.announcement index stages.length)).log .debug
    ("Running stage " ++ stage.name)
  have announcing : Obedient a stages announced := (obedient.deliver unset _).log _ _
  refine announcing.readClock.note (by simp) ?_
  rintro _ _ ⟨⟩ cancelled
  have sameInvoked : invocations announced.readClock.2.journal = s.invoked := by
    show announced.readClock.2.invoked = s.invoked
    rw [Session.invoked_readClock, Session.invoked_log, Session.invoked_deliver]
  cases listens : s.listener with
  | none =>
    -- Nobody has heard of the announcement, so the flag is as it was.
    have cancelledBefore : s.isCancelled = true := by
      rw [announcing.readClock.flag, Session.journal_readClock, ← announcing.flag] at cancelled
      simpa only [announced, Session.deliver_eq_self listens, Session.log, Session.note]
        using cancelled
    rw [unset] at cancelledBefore
    cases cancelledBefore
  | some listener =>
    obtain ⟨logs, noted, areLogs⟩ := Session.journal_deliver listens
      (stage.announcement index stages.length)
    refine ⟨stage, s.journal,
      logs ++ [Happening.logged ⟨"engine", .debug, "Running stage " ++ stage.name⟩], ?_, rfl, ?_, ?_⟩
    · rw [sameInvoked, next]
    · rw [sameInvoked, ← position, Session.journal_readClock]
      show (Session.note _ _).journal = _
      rw [Session.journal_note, noted]
      simp
    · intro happening member
      rcases List.mem_append.mp member with earlier | latest
      · exact areLogs happening earlier
      · rw [List.mem_singleton.mp latest]
        rfl

end Obedient

/-! ## Between the steps -/

namespace Session

def sinceInvoked (s : Session) : Nat := (latestEvents s.journal).length

theorem sinceInvoked_note_logged (s : Session) (record : LogRecord) :
    (s.note (.logged record)).sinceInvoked = s.sinceInvoked := by
  simp [sinceInvoked, latestEvents, journal_note, Happening.isInvocation, deliveredEvents]

theorem sinceInvoked_note_invoked (s : Session) (stage : String) (snapshot : Value) :
    (s.note (.invoked stage snapshot)).sinceInvoked = 0 := by
  simp [sinceInvoked, latestEvents, journal_note, Happening.isInvocation, deliveredEvents]

theorem sinceInvoked_deliver {s : Session} {listener : Listener}
    (listens : s.listener = some listener) (event : ProgressEvent) :
    (s.deliver event).sinceInvoked = s.sinceInvoked + 1 := by
  have delivered : ∀ t : Session, t.journal = s.journal ++ [Happening.delivered event] →
      t.sinceInvoked = s.sinceInvoked + 1 := by
    intro t noted
    simp [sinceInvoked, latestEvents, noted, Happening.isInvocation, deliveredEvents]
  simp only [deliver, listens]
  split
  · rw [log, sinceInvoked_note_logged]
    exact delivered _ (s.journal_note _)
  · exact delivered _ (s.journal_note _)

end Session

/-- Between two sessions there are only log records and readings of the clock. -/
structure OnlyLogs (s after : Session) : Prop where
  invoked : after.invoked = s.invoked
  events : after.sinceInvoked = s.sinceInvoked
  flag : after.isCancelled = s.isCancelled
  obedient : ∀ {a stages}, Obedient a stages s → Obedient a stages after

namespace OnlyLogs

theorem refl (s : Session) : OnlyLogs s s := ⟨rfl, rfl, rfl, id⟩

theorem trans {s between after : Session} (first : OnlyLogs s between)
    (second : OnlyLogs between after) : OnlyLogs s after where
  invoked := second.invoked.trans first.invoked
  events := second.events.trans first.events
  flag := second.flag.trans first.flag
  obedient := fun obedient => second.obedient (first.obedient obedient)

theorem log (s : Session) (level : LogLevel) (message : String) :
    OnlyLogs s (s.log level message) where
  invoked := s.invoked_log level message
  events := s.sinceInvoked_note_logged _
  flag := rfl
  obedient := fun obedient => obedient.log level message

theorem readClock (s : Session) : OnlyLogs s s.readClock.2 where
  invoked := s.invoked_readClock
  events := by rw [Session.sinceInvoked, Session.journal_readClock, Session.sinceInvoked]
  flag := by
    unfold Session.readClock
    split <;> rfl
  obedient := Obedient.readClock

theorem logFailure (s : Session) (stage : String) (failure : Option StageFailure) :
    OnlyLogs s (s.logFailure stage failure) := by
  cases failure with
  | none => exact refl s
  | some failure => exact log s _ _

end OnlyLogs

section

variable {stage : Stage} {started : Quantity} {report : Entries} {result : StageResult}
  {a : Analysis} {stages : List Stage} {s after : Session} {index : Nat}

theorem onlyLogs_of_concludeStage {outcome : Except RunError Entries}
    (concluded : concludeStage stage started report result s = (after, outcome)) :
    OnlyLogs s after := by
  unfold concludeStage at concluded
  split at concluded
  · cases concluded
    exact .refl s
  · split at concluded <;> cases concluded <;>
      exact (OnlyLogs.logFailure s _ _).trans (.readClock _)

/-! ## A run is obedient -/

theorem Obedient.runStage (context : StageContext) (report : Entries)
    (obedient : Obedient a stages s) (following : stages[s.invoked.length]? = some stage)
    (position : index = s.invoked.length + 1) :
    Obedient a stages (runStage context stage index stages.length report s).1 := by
  rw [runStage_eq]
  split
  · exact obedient
  · next unset =>
    have announced := obedient.announceStage (by simpa using unset) following position
      (handedTo stage report)
    have worked := announced.take stage.name (stage.run context (handedTo stage report)).steps
    simp only
    split
    · next taken =>
      rw [taken] at worked
      exact worked
    · next taken =>
      rw [taken] at worked
      exact (onlyLogs_of_concludeStage rfl).obedient worked

theorem Obedient.runStages (context : StageContext) (report : Entries) (done : List Stage)
    {rest : List Stage} (obedient : Obedient a (done ++ rest) s)
    (invoked : s.invoked.length = done.length) (position : index = done.length + 1) :
    Obedient a (done ++ rest)
      (runStages context (done ++ rest).length rest index report s).1 := by
  induction rest generalizing done s index report with
  | nil => exact obedient
  | cons stage rest inductionHypothesis =>
    have following : (done ++ stage :: rest)[s.invoked.length]? = some stage := by
      simp [invoked]
    have ranStage := obedient.runStage context report following (position.trans (by rw [invoked]))
    rw [Surveyor.runStages]
    split
    · next between e ran =>
      rw [ran] at ranStage
      exact ranStage
    · next between next ran =>
      rw [ran] at ranStage
      obtain ⟨invokedNow, -⟩ := runStage_eq_ok ran
      have shifted : done ++ stage :: rest = (done ++ [stage]) ++ rest := by simp
      rw [shifted] at ranStage ⊢
      refine inductionHypothesis next (done ++ [stage]) ranStage ?_ ?_
      · simp [invokedNow, invoked]
      · simp [position]

theorem onlyLogs_of_finishRun {merged : Entries} {outcome : Except RunError Entries}
    (finished : finishRun started merged s = (after, outcome)) :
    OnlyLogs s after := by
  simp only [finishRun] at finished
  split at finished
  · cases finished
    exact .readClock s
  · split at finished
    · cases finished
      exact .readClock s
    · cases finished
      split <;> exact (OnlyLogs.readClock s).trans (.log _ _ _)

theorem onlyLogs_beginRun (context : StageContext) (stages : List Stage) (s : Session) :
    OnlyLogs s (beginRun context stages s).2 :=
  (OnlyLogs.log s _ _).trans (.readClock _)

theorem Obedient.runPipeline (context : StageContext) (analyzedAt : String)
    {opened : Session} (obedient : Obedient a stages opened) (fresh : opened.invoked = []) :
    Obedient a stages (runPipeline context analyzedAt stages opened).1 := by
  have begun := (onlyLogs_beginRun context stages opened).obedient obedient
  have invoked := (onlyLogs_beginRun context stages opened).invoked
  have ranStages : Obedient a stages (Surveyor.runStages context stages.length stages 1
      (initialReport context.project.displayName context.project.rootPath analyzedAt)
      (beginRun context stages opened).2).1 :=
    begun.runStages context _ [] (by simp [invoked, fresh]) rfl
  rw [runPipeline_eq]
  split
  · next ran =>
    rw [ran] at ranStages
    exact ranStages
  · next ran =>
    rw [ran] at ranStages
    exact (onlyLogs_of_finishRun rfl).obedient ranStages

end

end Surveyor
