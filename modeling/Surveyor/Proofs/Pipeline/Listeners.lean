import Surveyor.Proofs.Pipeline.Returned

/-! # What a run owes to its listener

A listener can do two things to a run: ask for a cancellation, and fail. A run in which no cancellation
is noticed is, happening by happening, the run of a listener that never asks for one
(`runPipeline_calm`), and such a run returns a report unless a stage has damaged the record
(`runPipeline_of_steady`). The failures of a listener leave traces in the log only
(`alike_runPipeline`).
-/

namespace Surveyor

/-! ## Listeners that never cancel -/

/-- The same listener, except that it never asks for a cancellation. -/
def Listener.calm (listener : Listener) : Listener :=
  ⟨fun earlier event => { listener.react earlier event with cancels := false }⟩

def Session.calm (s : Session) : Session :=
  { s with listener := s.listener.map Listener.calm, isCancelled := false }

namespace Session

theorem calm_steady (s : Session) : s.calm.Steady s.times where
  notCancelled := rfl
  neverCancels := by
    intro listener listens earlier event
    obtain ⟨original, -, rfl⟩ := Option.map_eq_some_iff.mp listens
    rfl
  ticks := fun _ member => member

theorem calm_log (s : Session) (level : LogLevel) (message : String) :
    (s.log level message).calm = s.calm.log level message :=
  rfl

theorem calm_deliver (s : Session) (event : ProgressEvent) :
    (s.deliver event).calm = s.calm.deliver event := by
  cases listens : s.listener with
  | none => simp [deliver, calm, listens]
  | some listener =>
    cases fails : (listener.react s.delivered event).failure with
    | none => simp [deliver, calm, listens, Listener.calm, fails, note]
    | some text => simp [deliver, calm, listens, Listener.calm, fails, note, log]

theorem readClock_calm (s : Session) :
    s.calm.readClock = (s.readClock.1, s.readClock.2.calm) := by
  simp only [readClock, calm]
  split <;> rfl

theorem logFailure_calm (s : Session) (stage : String) (failure : Option StageFailure) :
    s.calm.logFailure stage failure = (s.logFailure stage failure).calm := by
  cases failure <;> rfl

/-- Where no cancellation is noticed, there might as well be none. -/
theorem take_calm {s after : Session} {stage : String} {steps : List Step}
    (taken : s.take stage steps = (after, true)) :
    s.calm.take stage steps = (after.calm, true) := by
  induction steps generalizing s with
  | nil =>
    obtain ⟨rfl, -⟩ := Prod.mk.inj taken
    rfl
  | cons step rest inductionHypothesis =>
    cases step with
    | log record => exact inductionHypothesis taken
    | checkpoint =>
      rw [take] at taken
      split at taken
      · cases taken
      · exact inductionHypothesis taken
    | report current total detail phase =>
      rw [take] at taken
      split at taken
      · cases taken
      · have calmed := inductionHypothesis taken
        rw [calm_deliver] at calmed
        exact calmed

end Session

section

variable (context : StageContext) (stage : Stage) (index total : Nat) (report : Entries) (s : Session)

theorem announceStage_calm (snapshot : Value) :
    announceStage stage index total snapshot s.calm =
      ((announceStage stage index total snapshot s).1,
        (announceStage stage index total snapshot s).2.calm) := by
  simp only [announceStage, ← Session.calm_deliver, ← Session.calm_log, Session.readClock_calm]
  rfl

theorem concludeStage_calm (started : Quantity) (result : StageResult) :
    concludeStage stage started report result s.calm =
      ((concludeStage stage started report result s).1.calm,
        (concludeStage stage started report result s).2) := by
  unfold concludeStage
  cases settle report result with
  | error e => rfl
  | ok settled =>
    simp only [Session.logFailure_calm, Session.readClock_calm]
    split <;> rfl

/-- A stage notices a cancellation, or it runs as if there were none. -/
theorem runStage_calm :
    (runStage context stage index total report s).2 = .error (cancelledDuring stage.name)
      ∨ runStage context stage index total report s.calm
        = ((runStage context stage index total report s).1.calm,
          (runStage context stage index total report s).2) := by
  rw [runStage_eq, runStage_eq]
  split
  · exact .inl rfl
  · simp only [announceStage_calm]
    split
    · exact .inl rfl
    · next worked taken =>
      right
      simp only [Session.take_calm taken, ← concludeStage_calm]
      rfl

theorem runStages_calm (stages : List Stage) :
    (∃ stage ∈ stages, (runStages context total stages index report s).2
        = .error (cancelledDuring stage.name))
      ∨ runStages context total stages index report s.calm
        = ((runStages context total stages index report s).1.calm,
          (runStages context total stages index report s).2) := by
  induction stages generalizing index report s with
  | nil => exact .inr rfl
  | cons stage rest inductionHypothesis =>
    simp only [runStages]
    rcases runStage_calm context stage index total report s with noticed | same
    · left
      refine ⟨stage, by simp, ?_⟩
      cases ran : runStage context stage index total report s with
      | mk between outcome =>
        rw [ran] at noticed
        simp only at noticed
        simp only [noticed]
    · rw [same]
      cases ran : runStage context stage index total report s with
      | mk between outcome =>
        cases outcome with
        | error e => exact .inr rfl
        | ok next =>
          rcases inductionHypothesis (index + 1) next between with ⟨later, member, noticed⟩ | rest
          · exact .inl ⟨later, by simp [member], noticed⟩
          · exact .inr rest

theorem finishRun_calm (started : Quantity) :
    finishRun started report s.calm
      = ((finishRun started report s).1.calm, (finishRun started report s).2) := by
  simp only [finishRun, Session.readClock_calm]
  split
  · rfl
  · split
    · rfl
    · split <;> rfl

/-- A run notices a cancellation, or it is the run that nobody asks to cancel. -/
theorem runPipeline_calm (analyzedAt : String) (stages : List Stage) :
    (∃ stage ∈ stages, (runPipeline context analyzedAt stages s).2
        = .error (cancelledDuring stage.name))
      ∨ runPipeline context analyzedAt stages s.calm
        = ((runPipeline context analyzedAt stages s).1.calm,
          (runPipeline context analyzedAt stages s).2) := by
  have begins : beginRun context stages s.calm
      = ((beginRun context stages s).1, (beginRun context stages s).2.calm) := by
    simp only [beginRun, ← Session.calm_log, Session.readClock_calm]
  rw [runPipeline_eq, runPipeline_eq, begins]
  rcases runStages_calm context 1 stages.length
    (initialReport context.project.displayName context.project.rootPath analyzedAt)
    (beginRun context stages s).2 stages with ⟨stage, member, noticed⟩ | same
  · left
    refine ⟨stage, member, ?_⟩
    generalize runStages context stages.length stages 1 _ (beginRun context stages s).2 = ran
      at noticed
    obtain ⟨worked, outcome⟩ := ran
    simp only at noticed
    simp only [noticed]
  · right
    rw [same]
    generalize runStages context stages.length stages 1 _ (beginRun context stages s).2 = ran
    obtain ⟨worked, outcome⟩ := ran
    cases outcome with
    | error e => rfl
    | ok merged => exact finishRun_calm merged worked _

end

/-! ## Only the record can be at fault -/

namespace StageResult

/-- A stage that returns or fails, and does not end the analysis by itself. -/
def GoesOn : StageResult → Prop
  | .delta _ | .noDelta | .failed _ => True
  | .refused _ | .cancelled _ => False

theorem IsOrdinary.goesOn {result : StageResult} (ordinary : result.IsOrdinary) : result.GoesOn := by
  cases result with
  | delta _ | noDelta | failed _ => trivial
  | refused _ | cancelled _ => exact ordinary

/-- What a stage returned is settled exactly if it can be merged. -/
theorem GoesOn.settle {result : StageResult} (goesOn : result.GoesOn) (report : Entries) :
    (result.Merges ∧ ∃ settled, settle report result = .ok settled)
      ∨ (¬ result.Merges ∧ ∃ fault, Surveyor.settle report result = .error (.record fault)) := by
  cases result with
  | delta entries =>
    cases ordered : (Value.map entries).hasOrderedSets with
    | true =>
      refine .inl ⟨?_, _, settle_delta_of_ordered report ordered⟩
      rintro _ ⟨⟩
      exact ordered
    | false =>
      obtain ⟨fault, failed⟩ := settle_delta_of_unordered report ordered
      exact .inr ⟨fun merges => by simp [merges entries rfl] at ordered, _, failed⟩
  | noDelta | failed _ => exact .inl ⟨by rintro _ ⟨⟩, _, rfl⟩
  | refused _ | cancelled _ => exact goesOn.elim

end StageResult

theorem finishRun_cases (started : Quantity) (merged : Entries) (s : Session) :
    (∃ report, (finishRun started merged s).2 = .ok report)
      ∨ (∃ fault, (finishRun started merged s).2 = .error (.record fault))
      ∨ ∃ fault, (finishRun started merged s).2 = .error (.clock fault)
        ∧ Session.elapsedMs started s.readClock.1 = .error fault := by
  simp only [finishRun]
  split
  · next fault elapsed => exact .inr (.inr ⟨fault, rfl, elapsed⟩)
  · split
    · exact .inr (.inl ⟨_, rfl⟩)
    · exact .inl ⟨_, rfl⟩

section

variable {context : StageContext} {analyzedAt : String} {stages : List Stage} {s : Session}
  {clock : List Quantity} (tells : Session.TellsTime clock)

include tells

theorem concludeStage_of_steady {stage : Stage} {started : Quantity} (startedKnown : started ∈ clock)
    (report : Entries) {result : StageResult} (goesOn : result.GoesOn) (steady : s.Steady clock) :
    (concludeStage stage started report result s).1.Steady clock
      ∧ ((∃ next, (concludeStage stage started report result s).2 = .ok next)
        ∨ ∃ fault, (concludeStage stage started report result s).2 = .error (.record fault)) := by
  rcases goesOn.settle report with ⟨-, ⟨settled, failure⟩, settles⟩ | ⟨-, fault, failed⟩
  · have logged := steady.logFailure stage.name failure
    obtain ⟨duration, elapsed⟩ := tells started startedKnown _ logged.reading_mem
    simp only [concludeStage, settles, elapsed]
    refine ⟨logged.readClock, ?_⟩
    cases appendLayer settled ⟨stage.name, duration, failure.map StageFailure.message⟩ with
    | ok next => exact .inl ⟨next, rfl⟩
    | error fault => exact .inr ⟨fault, rfl⟩
  · simp only [concludeStage, failed]
    exact ⟨steady, .inr ⟨fault, rfl⟩⟩

theorem runStages_of_steady (total index : Nat) (report : Entries) (steady : s.Steady clock)
    (goesOn : ∀ stage ∈ stages, ∀ snapshot, (stage.run context snapshot).result.GoesOn) :
    (runStages context total stages index report s).1.Steady clock
      ∧ ((∃ final, (runStages context total stages index report s).2 = .ok final)
        ∨ ∃ fault, (runStages context total stages index report s).2 = .error (.record fault)) := by
  induction stages generalizing index report s with
  | nil => exact ⟨steady, .inl ⟨report, rfl⟩⟩
  | cons stage rest inductionHypothesis =>
    obtain ⟨started, announced, announces, startedKnown, steadyAnnounced, -⟩ :=
      steady.announceStage stage index total (handedTo stage report)
    obtain ⟨worked, takes, steadyWorked, -⟩ := steadyAnnounced.take stage.name
      (stage.run context (handedTo stage report)).steps
    -- Nobody cancels, so the stage is announced, takes all of its steps and is concluded.
    have ranStage : runStage context stage index total report s = concludeStage stage started report
        (stage.run context (handedTo stage report)).result worked := by
      simp only [runStage_eq, steady.notCancelled, Bool.false_eq_true, ↓reduceIte, announces, takes]
    obtain ⟨steadyBetween, outcome⟩ := concludeStage_of_steady tells startedKnown report
      (goesOn stage (by simp) (handedTo stage report)) steadyWorked
    rw [← ranStage] at steadyBetween outcome
    rw [runStages]
    split
    · next between e ran =>
      rw [ran] at steadyBetween outcome
      obtain ⟨_, ⟨⟩⟩ | ⟨fault, ⟨⟩⟩ := outcome
      exact ⟨steadyBetween, .inr ⟨fault, rfl⟩⟩
    · next between next ran =>
      rw [ran] at steadyBetween
      exact inductionHypothesis (index + 1) next steadyBetween
        fun later member => goesOn later (by simp [member])

/-- Only what cannot be entered in the report keeps a run from a report that nobody cancels. -/
theorem runPipeline_of_steady (steady : s.Steady clock)
    (goesOn : ∀ stage ∈ stages, ∀ snapshot, (stage.run context snapshot).result.GoesOn) :
    (∃ report, (runPipeline context analyzedAt stages s).2 = .ok report)
      ∨ ∃ fault, (runPipeline context analyzedAt stages s).2 = .error (.record fault) := by
  obtain ⟨startedKnown, begun⟩ : (beginRun context stages s).1 ∈ clock
      ∧ (beginRun context stages s).2.Steady clock :=
    ⟨(steady.log _ _).reading_mem, (steady.log _ _).readClock⟩
  obtain ⟨steadyWorked, outcome⟩ := runStages_of_steady tells stages.length 1
    (initialReport context.project.displayName context.project.rootPath analyzedAt) begun goesOn
  rw [runPipeline_eq]
  split
  · next worked e ran =>
    rw [ran] at outcome
    obtain ⟨_, ⟨⟩⟩ | ⟨fault, ⟨⟩⟩ := outcome
    exact .inr ⟨fault, rfl⟩
  · next worked merged ran =>
    rw [ran] at steadyWorked
    rcases finishRun_cases (beginRun context stages s).1 merged worked with
      returned | damaged | ⟨fault, -, untold⟩
    · exact .inl returned
    · exact .inr damaged
    · -- The clock tells every duration, so the last one is no reason to fail.
      obtain ⟨duration, elapsed⟩ := tells _ startedKnown _ steadyWorked.reading_mem
      rw [elapsed] at untold
      cases untold

end

/-! ## Listeners that never fail -/

/-- The same listener, except that it never fails. -/
def Listener.mute (listener : Listener) : Listener :=
  ⟨fun earlier event => { listener.react earlier event with failure := none }⟩

def Happening.isLogged : Happening → Bool
  | .logged _ => true
  | _ => false

def Session.mute (s : Session) : Session :=
  { s with
    listener := s.listener.map Listener.mute
    happened := s.happened.filter (!·.isLogged) }

namespace Session

theorem mute_note_logged (s : Session) (record : LogRecord) :
    (s.note (.logged record)).mute = s.mute := by
  simp [mute, note, Happening.isLogged]

theorem mute_log (s : Session) (level : LogLevel) (message : String) :
    (s.log level message).mute = s.mute :=
  s.mute_note_logged _

theorem mute_deliver (s : Session) (event : ProgressEvent) :
    (s.deliver event).mute = s.mute.deliver event := by
  cases listens : s.listener with
  | none => simp [deliver, mute, listens]
  | some listener =>
    cases fails : (listener.react s.delivered event).failure with
    | none => simp [deliver, mute, listens, Listener.mute, fails, note, Happening.isLogged]
    | some text =>
      simp [deliver, mute, listens, Listener.mute, fails, note, log, Happening.isLogged]

theorem mute_logFailure (s : Session) (stage : String) (failure : Option StageFailure) :
    (s.logFailure stage failure).mute = s.mute := by
  cases failure with
  | none => rfl
  | some failure => exact s.mute_log _ _

theorem readClock_mute (s : Session) :
    s.mute.readClock = (s.readClock.1, s.readClock.2.mute) := by
  simp only [readClock, mute]
  split <;> rfl

theorem invocations_mute (s : Session) : invocations s.mute.journal = invocations s.journal := by
  simp only [invocations, journal, mute, ← List.filter_reverse, List.filterMap_filter]
  congr 1
  funext happening
  cases happening <;> rfl

theorem deliveredEvents_mute (s : Session) :
    deliveredEvents s.mute.journal = deliveredEvents s.journal := by
  simp only [deliveredEvents, journal, mute, ← List.filter_reverse, List.filterMap_filter]
  congr 1
  funext happening
  cases happening <;> rfl

end Session

/-- Sessions that come to the same outcome, and differ in their logs and in the failures of their
listeners only. -/
def Alike {α : Type} (x y : Session × α) : Prop :=
  ∃ here there outcome, x = (here, outcome) ∧ y = (there, outcome) ∧ here.mute = there.mute

section

variable {s t : Session} (same : s.mute = t.mute)

include same

theorem isCancelled_of_mute_eq : s.isCancelled = t.isCancelled :=
  (congrArg Session.isCancelled same :)

theorem readClock_of_mute_eq :
    s.readClock.1 = t.readClock.1 ∧ s.readClock.2.mute = t.readClock.2.mute := by
  have read := congrArg Session.readClock same
  rw [Session.readClock_mute, Session.readClock_mute] at read
  exact Prod.mk.inj read

theorem alike_take (stage : String) (steps : List Step) :
    Alike (s.take stage steps) (t.take stage steps) := by
  induction steps generalizing s t with
  | nil => exact ⟨s, t, true, rfl, rfl, same⟩
  | cons step rest inductionHypothesis =>
    have sameFlag := isCancelled_of_mute_eq same
    cases step with
    | log record =>
      apply inductionHypothesis
      rw [Session.mute_note_logged, Session.mute_note_logged, same]
    | checkpoint =>
      simp only [Session.take, sameFlag]
      split
      · exact ⟨s, t, false, rfl, rfl, same⟩
      · exact inductionHypothesis same
    | report current total detail phase =>
      simp only [Session.take, sameFlag]
      split
      · exact ⟨s, t, false, rfl, rfl, same⟩
      · apply inductionHypothesis
        rw [Session.mute_deliver, Session.mute_deliver, same]

theorem announceStage_of_mute_eq (stage : Stage) (index total : Nat) (snapshot : Value) :
    (announceStage stage index total snapshot s).1 = (announceStage stage index total snapshot t).1
      ∧ (announceStage stage index total snapshot s).2.mute
        = (announceStage stage index total snapshot t).2.mute := by
  let event : ProgressEvent := ⟨.str stage.name, .ofNat index, .ofNat total, .str "running"⟩
  have announced : ((s.deliver event).log .debug ("Running stage " ++ stage.name)).mute
      = ((t.deliver event).log .debug ("Running stage " ++ stage.name)).mute := by
    rw [Session.mute_log, Session.mute_log, Session.mute_deliver, Session.mute_deliver, same]
  obtain ⟨sameTime, sameSession⟩ := readClock_of_mute_eq announced
  exact ⟨sameTime, congrArg (Session.note · (.invoked stage.name snapshot)) sameSession⟩

theorem alike_concludeStage (stage : Stage) (started : Quantity) (report : Entries)
    (result : StageResult) :
    Alike (concludeStage stage started report result s)
      (concludeStage stage started report result t) := by
  unfold concludeStage
  cases settle report result with
  | error e => exact ⟨s, t, .error e, rfl, rfl, same⟩
  | ok settled =>
    obtain ⟨sameTime, sameSession⟩ := readClock_of_mute_eq
      (show (s.logFailure stage.name settled.2).mute = (t.logFailure stage.name settled.2).mute by
        rw [Session.mute_logFailure, Session.mute_logFailure, same])
    simp only [sameTime]
    split <;> exact ⟨_, _, _, rfl, rfl, sameSession⟩

theorem alike_runStage (context : StageContext) (stage : Stage) (index total : Nat)
    (report : Entries) :
    Alike (runStage context stage index total report s)
      (runStage context stage index total report t) := by
  rw [runStage_eq, runStage_eq, isCancelled_of_mute_eq same]
  split
  · exact ⟨s, t, _, rfl, rfl, same⟩
  · obtain ⟨sameTime, announced⟩ := announceStage_of_mute_eq same stage index total
      (handedTo stage report)
    obtain ⟨here, there, wasTaken, takenHere, takenThere, worked⟩ := alike_take announced stage.name
      (stage.run context (handedTo stage report)).steps
    simp only [sameTime, takenHere, takenThere]
    cases wasTaken with
    | false => exact ⟨here, there, _, rfl, rfl, worked⟩
    | true => exact alike_concludeStage worked stage _ report _

theorem alike_runStages (context : StageContext) (total : Nat) (stages : List Stage) (index : Nat)
    (report : Entries) :
    Alike (runStages context total stages index report s)
      (runStages context total stages index report t) := by
  induction stages generalizing s t index report with
  | nil => exact ⟨s, t, .ok report, rfl, rfl, same⟩
  | cons stage rest inductionHypothesis =>
    obtain ⟨here, there, outcome, ranHere, ranThere, between⟩ :=
      alike_runStage same context stage index total report
    simp only [runStages, ranHere, ranThere]
    cases outcome with
    | error e => exact ⟨here, there, .error e, rfl, rfl, between⟩
    | ok next => exact inductionHypothesis between (index + 1) next

theorem alike_finishRun (started : Quantity) (report : Entries) :
    Alike (finishRun started report s) (finishRun started report t) := by
  obtain ⟨sameTime, sameSession⟩ := readClock_of_mute_eq same
  simp only [finishRun, sameTime]
  split
  · exact ⟨_, _, _, rfl, rfl, sameSession⟩
  · split
    · exact ⟨_, _, _, rfl, rfl, sameSession⟩
    · refine ⟨_, _, _, rfl, rfl, ?_⟩
      split <;> rw [Session.mute_log, Session.mute_log, sameSession]

/-- What a run does and returns, its log apart, does not depend on failures of the listener. -/
theorem alike_runPipeline (context : StageContext) (analyzedAt : String) (stages : List Stage) :
    Alike (runPipeline context analyzedAt stages s) (runPipeline context analyzedAt stages t) := by
  obtain ⟨sameTime, begins⟩ : (beginRun context stages s).1 = (beginRun context stages t).1
      ∧ (beginRun context stages s).2.mute = (beginRun context stages t).2.mute := by
    apply readClock_of_mute_eq
    rw [Session.mute_log, Session.mute_log, same]
  obtain ⟨here, there, outcome, ranHere, ranThere, worked⟩ :=
    alike_runStages begins context stages.length stages 1
      (initialReport context.project.displayName context.project.rootPath analyzedAt)
  rw [runPipeline_eq, runPipeline_eq, ranHere, ranThere, sameTime]
  cases outcome with
  | error e => exact ⟨here, there, .error e, rfl, rfl, worked⟩
  | ok merged => exact alike_finishRun worked _ merged

end

theorem alike_chooseSettings {s t : Session} (same : s.mute = t.mute) (around : Surroundings)
    (place : List String) (given : Option Settings) :
    Alike (chooseSettings around place given s) (chooseSettings around place given t) := by
  unfold chooseSettings
  cases given with
  | some settings => exact ⟨s, t, .ok settings, rfl, rfl, same⟩
  | none =>
    simp only
    cases Settings.load around.readYaml around.tree place around.projectType with
    | ok settings => exact ⟨s, t, .ok settings, rfl, rfl, same⟩
    | error fault =>
      simp only
      split
      · refine ⟨_, _, _, rfl, rfl, ?_⟩
        rw [Session.mute_log, Session.mute_log, same]
      · exact ⟨s, t, _, rfl, rfl, same⟩

end Surveyor
