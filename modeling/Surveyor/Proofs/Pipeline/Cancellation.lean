import Surveyor.Proofs.Pipeline.Obedience

/-! # Cancellation

An analysis that is asked to end does so at the next place where the flag is looked at, and raises what
it was asked for. The exception is an analysis in which there is no such place any more: there are no
stages, or the last stage was invoked and neither reports nor passes a checkpoint afterwards
(`EndsUnnoticed`). No event follows the one at which the cancellation was asked for, so what comes after
the latest event is what comes after the request.

What becomes of the last stage is read off the steps that it takes (`TakesSteps`), and an analysis in
which no cancellation is noticed is the one that nobody cancels.
-/

namespace Surveyor

/-- A step at which a cancellation is noticed. -/
def Step.looksAtFlag : Step → Bool
  | .report .. | .checkpoint => true
  | .log _ => false

/-- The steps behind the first `n` reports. -/
def stepsAfter : Nat → List Step → List Step
  | 0, steps => steps
  | _ + 1, [] => []
  | n + 1, .report .. :: rest => stepsAfter n rest
  | n + 1, .checkpoint :: rest | n + 1, .log _ :: rest => stepsAfter (n + 1) rest

theorem stepsAfter_zero (steps : List Step) : stepsAfter 0 steps = steps := by
  cases steps <;> rfl

/-- The stage was invoked last, and takes no step that looks at the flag after the latest event. -/
def RunsOut (context : StageContext) (stage : Stage) (journal : List Happening) : Prop :=
  ∃ snapshot, (invocations journal).getLast? = some (stage.name, snapshot)
    ∧ ∀ step ∈ stepsAfter (latestEvents journal).length (stage.run context snapshot).steps,
      step.looksAtFlag = false

/-- Nothing looks at the flag after the latest event: there are no stages, or the last one was
invoked and runs out. -/
def EndsUnnoticed (context : StageContext) (stages : List Stage) (journal : List Happening) : Prop :=
  stages = [] ∨ (invocations journal).length = stages.length
    ∧ ∃ last, stages.getLast? = some last ∧ RunsOut context last journal

/-! ## The steps of a stage -/

/-- What is known of the steps that a stage took, and whether it took them all: it has delivered `n`
events, and a cancellation is noticed at the first step behind them that looks at the flag. -/
structure TakesSteps (steps : List Step) (s after : Session) (all : Bool) (n : Nat) : Prop where
  events : after.sinceInvoked = s.sinceInvoked + n
  heard : s.listener = none → n = 0
  unchanged : n = 0 → after.isCancelled = s.isCancelled
  unnoticed : all = true → after.isCancelled = true →
    ∀ step ∈ stepsAfter n steps, step.looksAtFlag = false
  noticed : all = false → ∃ step ∈ stepsAfter n steps, step.looksAtFlag = true

namespace TakesSteps

variable {rest : List Step} {s between after : Session} {all : Bool} {n : Nat}

/-- A step that is no report leaves the flag and the number of events as they were. -/
theorem cons_silent {step : Step} (takes : TakesSteps rest between after all n)
    (silent : ∀ m, n = m + 1 → stepsAfter n (step :: rest) = stepsAfter n rest)
    (sameListener : between.listener = s.listener)
    (sameEvents : between.sinceInvoked = s.sinceInvoked)
    (sameFlag : between.isCancelled = s.isCancelled)
    (unset : s.isCancelled = true → step.looksAtFlag = false) :
    TakesSteps (step :: rest) s after all n where
  events := by rw [takes.events, sameEvents]
  heard := by rw [← sameListener]; exact takes.heard
  unchanged := by rw [← sameFlag]; exact takes.unchanged
  unnoticed := by
    intro tookAll cancelled
    have restUnnoticed := takes.unnoticed tookAll cancelled
    cases n with
    | zero =>
      -- Without an event the flag was set before this step.
      have cancelledBefore : s.isCancelled = true := by
        rw [← sameFlag, ← takes.unchanged rfl, cancelled]
      rw [stepsAfter_zero] at restUnnoticed ⊢
      exact List.forall_mem_cons.mpr ⟨unset cancelledBefore, restUnnoticed⟩
    | succ m =>
      rw [silent m rfl]
      exact restUnnoticed
  noticed := by
    intro stopped
    obtain ⟨later, member, looks⟩ := takes.noticed stopped
    refine ⟨later, ?_, looks⟩
    cases n with
    | zero =>
      rw [stepsAfter_zero] at member ⊢
      exact List.mem_cons_of_mem step member
    | succ m => rwa [silent m rfl]

/-- The flag is noticed at the first step. -/
theorem stopped {step : Step} (s : Session) (looks : step.looksAtFlag = true) :
    TakesSteps (step :: rest) s s false 0 where
  events := rfl
  heard := fun _ => rfl
  unchanged := fun _ => rfl
  unnoticed := by simp
  noticed := fun _ => ⟨step, by simp [stepsAfter_zero], looks⟩

end TakesSteps

theorem takesSteps_take (s : Session) (stage : String) (steps : List Step) :
    ∃ n, TakesSteps steps s (s.take stage steps).1 (s.take stage steps).2 n := by
  induction steps generalizing s with
  | nil => exact ⟨0, rfl, fun _ => rfl, fun _ => rfl, by simp [stepsAfter], by simp [Session.take]⟩
  | cons step rest inductionHypothesis =>
    cases step with
    | log record =>
      obtain ⟨n, takes⟩ := inductionHypothesis (s.note (.logged record))
      refine ⟨n, takes.cons_silent ?_ rfl (s.sinceInvoked_note_logged record) rfl fun _ => rfl⟩
      rintro m rfl
      rfl
    | checkpoint =>
      rw [Session.take]
      split
      · exact ⟨0, .stopped s rfl⟩
      · next unset =>
        obtain ⟨n, takes⟩ := inductionHypothesis s
        refine ⟨n, takes.cons_silent ?_ rfl rfl rfl fun set => absurd set unset⟩
        rintro m rfl
        rfl
    | report current total detail phase =>
      rw [Session.take]
      split
      · exact ⟨0, .stopped s rfl⟩
      · next unset =>
        obtain ⟨n, takes⟩ := inductionHypothesis
          (s.deliver (Session.reportEvent stage current total detail phase))
        cases listens : s.listener with
        | none =>
          rw [Session.deliver_eq_self listens] at takes ⊢
          refine ⟨n, takes.cons_silent ?_ rfl rfl rfl fun set => absurd set unset⟩
          rintro m rfl
          cases takes.heard listens
        | some listener =>
          -- The report is the first of the events, so the steps behind them are those of the rest.
          refine ⟨n + 1, ?_, by simp [listens], by simp, takes.unnoticed, takes.noticed⟩
          rw [takes.events, Session.sinceInvoked_deliver listens, Nat.add_assoc, Nat.add_comm 1]

/-! ## Stages -/

section

variable {context : StageContext} {stage : Stage} {started : Quantity} {report next : Entries}
  {result : StageResult} {a : Analysis} {stages : List Stage} {s after : Session} {index total : Nat}

/-- Only the clock and the report can be at fault once a stage has returned or failed. -/
theorem not_cancelled_of_concludeStage {message : String} (goesOn : result.GoesOn) :
    concludeStage stage started report result s ≠ (after, .error (.cancelled message)) := by
  intro concluded
  rcases goesOn.settle report with ⟨-, ⟨settled, failure⟩, settles⟩ | ⟨-, fault, failed⟩
  · simp only [concludeStage, settles] at concluded
    split at concluded
    · cases concluded
    · have entered := congrArg Prod.snd concluded
      simp only at entered
      generalize appendLayer settled _ = entry at entered
      cases entry <;> simp [Except.mapError] at entered
  · simp only [concludeStage, failed] at concluded
    cases concluded

theorem runsOut_congr {t : Session} (sameInvoked : s.invoked = t.invoked)
    (sameEvents : s.sinceInvoked = t.sinceInvoked) :
    RunsOut context stage s.journal ↔ RunsOut context stage t.journal := by
  show (∃ snapshot, s.invoked.getLast? = some (stage.name, snapshot)
    ∧ ∀ step ∈ stepsAfter s.sinceInvoked (stage.run context snapshot).steps,
      step.looksAtFlag = false) ↔ _
  rw [sameInvoked, sameEvents]
  rfl

theorem runsOut_iff {earlier : List (String × Value)} {snapshot : Value}
    (invoked : s.invoked = earlier ++ [(stage.name, snapshot)]) :
    RunsOut context stage s.journal ↔
      ∀ step ∈ stepsAfter s.sinceInvoked (stage.run context snapshot).steps,
        step.looksAtFlag = false := by
  have latest : (invocations s.journal).getLast? = some (stage.name, snapshot) := by
    show s.invoked.getLast? = _
    rw [invoked, List.getLast?_concat]
  constructor
  · rintro ⟨found, isLatest, unnoticed⟩
    rw [latest] at isLatest
    cases isLatest
    exact unnoticed
  · exact fun unnoticed => ⟨snapshot, latest, unnoticed⟩

/-- A stage that has taken its steps runs out, unless a cancellation is noticed on the way. -/
theorem runsOut_of_take {worked : Session} {tookAll : Bool}
    (taken : (announceStage stage index total (handedTo stage report) s).2.take stage.name
      (stage.run context (handedTo stage report)).steps = (worked, tookAll)) :
    worked.invoked = s.invoked ++ [(stage.name, handedTo stage report)]
      ∧ (tookAll = true → worked.isCancelled = true → RunsOut context stage worked.journal)
      ∧ (tookAll = false → ¬ RunsOut context stage worked.journal) := by
  have invokedNow := invoked_announceStage stage index total (handedTo stage report) s
  obtain ⟨n, takes⟩ := takesSteps_take
    (announceStage stage index total (handedTo stage report) s).2 stage.name
    (stage.run context (handedTo stage report)).steps
  have invokedWorked := Session.invoked_take
    (announceStage stage index total (handedTo stage report) s).2 stage.name
    (stage.run context (handedTo stage report)).steps
  rw [taken] at takes invokedWorked
  have invoked := invokedWorked.trans invokedNow
  have events : worked.sinceInvoked = n := by
    have none : (announceStage stage index total (handedTo stage report) s).2.sinceInvoked = 0 :=
      Session.sinceInvoked_note_invoked _ _ _
    rw [takes.events, none, Nat.zero_add]
  rw [runsOut_iff invoked, events]
  refine ⟨invoked, takes.unnoticed, fun stopped runsOut => ?_⟩
  obtain ⟨step, member, looks⟩ := takes.noticed stopped
  rw [runsOut step member] at looks
  cases looks

theorem runsOut_of_runStage_ok
    (ran : runStage context stage index total report s = (after, .ok next))
    (cancelled : after.isCancelled = true) : RunsOut context stage after.journal := by
  rw [runStage_eq] at ran
  split at ran
  · cases ran
  · simp only at ran
    split at ran
    · cases ran
    · next worked taken =>
      obtain ⟨-, runsOut, -⟩ := runsOut_of_take taken
      have kept := onlyLogs_of_concludeStage ran
      rw [runsOut_congr kept.invoked kept.events]
      exact runsOut rfl (kept.flag ▸ cancelled)

/-- Where a stage notices a cancellation: before it is announced, or at one of its steps. -/
theorem not_runsOut_of_runStage_cancelled {message : String}
    (goesOn : (stage.run context (handedTo stage report)).result.GoesOn)
    (ran : runStage context stage index total report s = (after, .error (.cancelled message))) :
    after = s ∨ after.invoked.length = s.invoked.length + 1
      ∧ ¬ RunsOut context stage after.journal := by
  rw [runStage_eq] at ran
  split at ran
  · cases ran
    exact .inl rfl
  · simp only at ran
    split at ran
    · next worked taken =>
      cases ran
      obtain ⟨invoked, -, notRunsOut⟩ := runsOut_of_take taken
      exact .inr ⟨by simp [invoked], notRunsOut rfl⟩
    · exact absurd ran (not_cancelled_of_concludeStage goesOn)

end

/-! ## All stages -/

section

variable {context : StageContext} {a : Analysis} {stages : List Stage} {s after : Session}
  {index total : Nat} {report final : Entries}

/-- Stages that came to an end were all invoked, and the last one of them runs out if the analysis is
cancelled by then. -/
theorem runsOut_of_runStages_ok
    (ran : runStages context total stages index report s = (after, .ok final)) :
    after.invoked.length = s.invoked.length + stages.length
      ∧ (after.isCancelled = true → stages = []
        ∨ ∃ last, stages.getLast? = some last ∧ RunsOut context last after.journal) := by
  induction stages generalizing index report s with
  | nil =>
    cases ran
    exact ⟨rfl, fun _ => .inl rfl⟩
  | cons stage rest inductionHypothesis =>
    rw [runStages] at ran
    split at ran
    · cases ran
    · next between next ranStage =>
      obtain ⟨invokedNow, -⟩ := runStage_eq_ok ranStage
      obtain ⟨invokedRest, runsOut⟩ := inductionHypothesis ran
      refine ⟨?_, fun cancelled => .inr ?_⟩
      · rw [invokedRest, invokedNow, List.length_append, List.length_singleton, List.length_cons]
        omega
      · rcases runsOut cancelled with rfl | ⟨last, isLast, runsOutLast⟩
        · cases ran
          exact ⟨stage, rfl, runsOut_of_runStage_ok ranStage cancelled⟩
        · exact ⟨last, by rw [List.getLast?_cons, isLast]; rfl, runsOutLast⟩

/-- Where a cancellation is noticed, some stage was not invoked, or the last one does not run out. -/
theorem not_runsOut_of_runStages_cancelled {message : String}
    (goesOn : ∀ stage ∈ stages, ∀ snapshot, (stage.run context snapshot).result.GoesOn)
    (ran : runStages context total stages index report s
      = (after, .error (.cancelled message))) :
    after.invoked.length < s.invoked.length + stages.length
      ∨ ∃ last, stages.getLast? = some last ∧ ¬ RunsOut context last after.journal := by
  induction stages generalizing index report s with
  | nil => cases ran
  | cons stage rest inductionHypothesis =>
    rw [runStages] at ran
    split at ran
    · next between e ranStage =>
      cases ran
      rcases not_runsOut_of_runStage_cancelled (goesOn stage (by simp) _) ranStage with
        rfl | ⟨invokedNow, notRunsOut⟩
      · exact .inl (by simp)
      · -- If other stages were still to come, they were not invoked.
        cases rest with
        | nil => exact .inr ⟨stage, rfl, notRunsOut⟩
        | cons second later => exact .inl (by simp [invokedNow])
    · next between next ranStage =>
      obtain ⟨invokedNow, -⟩ := runStage_eq_ok ranStage
      rcases inductionHypothesis (fun later member => goesOn later (by simp [member])) ran with
        fewer | ⟨last, isLast, notRunsOut⟩
      · left
        simp only [invokedNow, List.length_append, List.length_singleton] at fewer
        simp only [List.length_cons]
        omega
      · exact .inr ⟨last, by rw [List.getLast?_cons, isLast]; rfl, notRunsOut⟩

end

/-! ## The whole run -/

section

variable {context : StageContext} {analyzedAt : String} {stages : List Stage} {started : Quantity}
  {merged report : Entries} {outcome : Except RunError Entries} {a : Analysis}
  {opened s after : Session}

/-- A run that returned a report although it was cancelled has ended unnoticed. -/
theorem endsUnnoticed_of_ok (fresh : opened.invoked = [])
    (ran : runPipeline context analyzedAt stages opened = (after, .ok report))
    (cancelled : after.isCancelled = true) : EndsUnnoticed context stages after.journal := by
  rw [runPipeline_eq] at ran
  split at ran
  · cases ran
  · next worked merged ranStages =>
    obtain ⟨invokedAll, runsOut⟩ := runsOut_of_runStages_ok ranStages
    have kept := onlyLogs_of_finishRun ran
    rcases runsOut (kept.flag ▸ cancelled) with none | ⟨last, isLast, runsOutLast⟩
    · exact .inl none
    · refine .inr ⟨?_, last, isLast, ?_⟩
      · show after.invoked.length = _
        rw [kept.invoked, invokedAll, (onlyLogs_beginRun context stages opened).invoked, fresh]
        simp
      · rwa [runsOut_congr kept.invoked kept.events]

/-- A run that ends as cancelled has not ended unnoticed. -/
theorem not_endsUnnoticed_of_cancelled {message : String} (fresh : opened.invoked = [])
    (goesOn : ∀ stage ∈ stages, ∀ snapshot, (stage.run context snapshot).result.GoesOn)
    (ran : runPipeline context analyzedAt stages opened = (after, .error (.cancelled message))) :
    ¬ EndsUnnoticed context stages after.journal := by
  rw [runPipeline_eq] at ran
  split at ran
  · next worked e ranStages =>
    cases ran
    have begun := (onlyLogs_beginRun context stages opened).invoked
    rintro (rfl | ⟨invokedAll, last, isLast, runsOut⟩)
    · cases ranStages
    · rcases not_runsOut_of_runStages_cancelled goesOn ranStages with
        fewer | ⟨found, isFound, notRunsOut⟩
      · rw [begun, fresh] at fewer
        change after.invoked.length = _ at invokedAll
        simp only [List.length_nil] at fewer
        omega
      · rw [isLast] at isFound
        cases isFound
        exact notRunsOut runsOut
  · next worked merged _ =>
    have ends := finishRun_cases (beginRun context stages opened).1 merged worked
    rw [ran] at ends
    rcases ends with ⟨_, ⟨⟩⟩ | ⟨_, ⟨⟩⟩ | ⟨_, ⟨⟩, _⟩

end

/-! ## Cancelled analyses -/

namespace Analysis

variable {a : Analysis} {context : StageContext} {stages : List Stage} {opened : Session}

theorem ComesTo.onlyLogs (begins : a.ComesTo context stages opened) : OnlyLogs a.session opened := by
  rcases begins.opened_eq with rfl | ⟨message, rfl⟩
  · exact .refl _
  · exact .log _ _ _

theorem ComesTo.times_eq (begins : a.ComesTo context stages opened) :
    opened.times = a.session.times := by
  rcases begins.opened_eq with rfl | ⟨message, rfl⟩ <;> rfl

theorem session_obedient (a : Analysis) (stages : List Stage) : Obedient a stages a.session where
  listens := rfl
  remembers := rfl
  flag := by simp [AskedIn, session, Session.start, Session.journal]
  heeded := ⟨by simp [session, Session.start, Session.journal],
    by simp [session, Session.start, Session.journal]⟩

theorem ComesTo.obedient (begins : a.ComesTo context stages opened) :
    Obedient a stages (runPipeline context a.around.analyzedAt stages opened).1 :=
  (begins.onlyLogs.obedient (a.session_obedient stages)).runPipeline context _ begins.invoked_eq

/-- A cancellation that was asked for is noticed by some stage, or the analysis goes on as if nobody
had asked for it and ends unnoticed if it returns a report. -/
theorem ComesTo.noticed_or_calm (begins : a.ComesTo context stages opened)
    (asked : a.AskedIn a.run.journal)
    (goesOn : ∀ stage ∈ stages, ∀ snapshot, (stage.run context snapshot).result.GoesOn) :
    (¬ EndsUnnoticed context stages a.run.journal
        ∧ ∃ stage ∈ stages, a.run.result = .error (cancelledDuring stage.name))
      ∨ a.run = ⟨(runPipeline context a.around.analyzedAt stages opened.calm).1.journal,
          (runPipeline context a.around.analyzedAt stages opened.calm).2⟩
        ∧ ∀ report, a.run.result = .ok report → EndsUnnoticed context stages a.run.journal := by
  rw [begins.run_eq] at asked ⊢
  have cancelled := begins.obedient.flag.mpr asked
  rcases runPipeline_calm context opened a.around.analyzedAt stages with
    ⟨stage, member, noticed⟩ | unnoticed
  · exact .inl ⟨not_endsUnnoticed_of_cancelled begins.invoked_eq goesOn (Prod.ext rfl noticed),
      stage, member, noticed⟩
  · right
    rw [unnoticed]
    refine ⟨rfl, fun report returned => ?_⟩
    exact endsUnnoticed_of_ok begins.invoked_eq (Prod.ext rfl returned) cancelled

theorem ComesTo.steady_calm (begins : a.ComesTo context stages opened) :
    opened.calm.Steady a.session.times := by
  rw [← begins.times_eq]
  exact opened.calm_steady

/-- Another listener with the same cancellations makes no difference but in the log. -/
theorem ComesTo.run_of_listener (begins : a.ComesTo context stages opened)
    {listener other : Listener} (listens : a.listener = some listener)
    (sameCancels : ∀ earlier event,
      (other.react earlier event).cancels = (listener.react earlier event).cancels) :
    deliveredEvents { a with listener := some other }.run.journal = deliveredEvents a.run.journal
      ∧ invocations { a with listener := some other }.run.journal = invocations a.run.journal
      ∧ { a with listener := some other }.run.result = a.run.result := by
  have sameSession : a.session.mute = { a with listener := some other }.session.mute := by
    simp [session, Session.start, Session.mute, Listener.mute, listens, sameCancels]
  obtain ⟨place, settings, root, chosen, ordered, contextual⟩ := begins
  obtain ⟨here, there, outcome, choosesHere, choosesThere, openedAlike⟩ :=
    alike_chooseSettings sameSession a.around place a.overrides.settings
  rw [chosen] at choosesHere
  cases choosesHere
  have begins : a.ComesTo context stages opened :=
    ⟨place, settings, root, chosen, ordered, contextual⟩
  have beginsThere : { a with listener := some other }.ComesTo context stages there :=
    ⟨place, settings, root, choosesThere, ordered, contextual⟩
  obtain ⟨ranHere, ranThere, result, runsHere, runsThere, alike⟩ :=
    alike_runPipeline openedAlike context a.around.analyzedAt stages
  rw [begins.run_eq, beginsThere.run_eq, runsHere, runsThere]
  refine ⟨?_, ?_, rfl⟩
  · rw [← Session.deliveredEvents_mute, ← alike, Session.deliveredEvents_mute]
  · rw [← Session.invocations_mute, ← alike, Session.invocations_mute]

/-- What a cancellation does to an analysis: once it was asked for, no event is delivered and only the
stage that was announced is invoked; the analysis ends as cancelled, or it ends unnoticed and returns
its report, where no stage has damaged the record or returned what cannot be merged; and it makes no
difference whether the listener fails. -/
theorem cancellation_ends_analysis (begins : a.ComesTo context stages opened) :
    Heeded a stages a.run.journal
    ∧ (a.AskedIn a.run.journal → Session.TellsTime a.session.times →
      ((∀ stage ∈ stages, ∀ snapshot, (stage.run context snapshot).result.GoesOn) →
        (¬ EndsUnnoticed context stages a.run.journal
          ∧ ∃ stage ∈ stages, a.run.result = .error (cancelledDuring stage.name))
        ∨ (EndsUnnoticed context stages a.run.journal ∧ ∃ report, a.run.result = .ok report)
        ∨ ∃ fault, a.run.result = .error (.record fault))
      ∧ ((∀ stage ∈ stages, ∀ snapshot, (stage.run context snapshot).result.IsOrdinary) →
        ((¬ EndsUnnoticed context stages a.run.journal
          ∧ ∃ stage ∈ stages, a.run.result = .error (cancelledDuring stage.name))
        ∨ (EndsUnnoticed context stages a.run.journal
          ∧ ∃ outcomes, FoldsStages context a.around.analyzedAt stages outcomes a.run)
        ∨ ∃ outcomes stage delta,
          StopsUnmerged context a.around.analyzedAt stages outcomes stage delta a.run)
        ∧ ((∀ stage ∈ stages, stage.Merges context a.around.analyzedAt) →
          (¬ EndsUnnoticed context stages a.run.journal
            ∧ ∃ stage ∈ stages, a.run.result = .error (cancelledDuring stage.name))
          ∨ (EndsUnnoticed context stages a.run.journal
            ∧ ∃ outcomes, FoldsStages context a.around.analyzedAt stages outcomes a.run))))
    ∧ ∀ listener other, a.listener = some listener →
      (∀ earlier event,
        (other.react earlier event).cancels = (listener.react earlier event).cancels) →
      deliveredEvents { a with listener := some other }.run.journal = deliveredEvents a.run.journal
        ∧ invocations { a with listener := some other }.run.journal = invocations a.run.journal
        ∧ { a with listener := some other }.run.result = a.run.result := by
  refine ⟨?_, fun asked tells => ⟨fun goesOn => ?_, fun ordinary => ?_⟩, ?_⟩
  · rw [begins.run_eq]
    exact begins.obedient.heeded
  · rcases begins.noticed_or_calm asked goesOn with noticed | ⟨calm, endsUnnoticed⟩
    · exact .inl noticed
    · right
      rcases runPipeline_of_steady tells begins.steady_calm goesOn with
        ⟨report, returned⟩ | ⟨fault, damaged⟩
      · have result : a.run.result = .ok report := by rw [calm, returned]
        exact .inl ⟨endsUnnoticed report result, report, result⟩
      · exact .inr ⟨fault, by rw [calm, damaged]⟩
  · rcases begins.noticed_or_calm asked
      (fun stage member snapshot => (ordinary stage member snapshot).goesOn) with
      noticed | ⟨calm, endsUnnoticed⟩
    · exact ⟨.inl noticed, fun _ => .inl noticed⟩
    · refine ⟨.inr ?_, fun merges => .inr ?_⟩
      · rcases runPipeline_folds_or_stops tells context a.around.analyzedAt begins.steady_calm
          begins.invoked_eq ordinary calm with ⟨outcomes, folds⟩ | stops
        · obtain ⟨duration, published⟩ := folds.published
          exact .inl ⟨endsUnnoticed _ published, outcomes, folds⟩
        · exact .inr stops
      · obtain ⟨outcomes, folds⟩ := runPipeline_folds tells context a.around.analyzedAt
          begins.steady_calm begins.invoked_eq ordinary merges
        rw [← calm] at folds
        obtain ⟨duration, published⟩ := folds.published
        exact ⟨endsUnnoticed _ published, outcomes, folds⟩
  · intro listener other listens sameCancels
    exact begins.run_of_listener listens sameCancels

/-- An analysis whose listener asks for a cancellation at the first event, and may fail at all. -/
def cancelledAtFirst (failure : Option String) (stages : List Stage) : Analysis :=
  ⟨besideSettings ⟨#[]⟩, ⟨some { root := "/srv/app" }, some stages⟩, { rootPath := "/srv/app" },
    some ⟨fun earlier _ => ⟨earlier.isEmpty, failure⟩⟩, false, [.whole 0]⟩

def cancelledContext : StageContext :=
  ⟨({ rootPath := "/srv/app" } : Project).effective "/srv/app" { root := "/srv/app" },
    { root := "/srv/app" }, (besideSettings ⟨#[]⟩).tree, 0⟩

theorem cancelledAtFirst_comesTo (failure : Option String) {stages : List Stage}
    (accepted : orderError? stages = none) :
    (cancelledAtFirst failure stages).ComesTo cancelledContext stages
      (cancelledAtFirst failure stages).session := by
  refine ⟨["app"], { root := "/srv/app" }, checkRoot_besideSettings, rfl, ?_, rfl⟩
  simp [cancelledAtFirst, chooseStages, accepted, bind, Except.bind, pure, Except.pure]

theorem cancelledAtFirst_tells (failure : Option String) (stages : List Stage) :
    Session.TellsTime (cancelledAtFirst failure stages).session.times := by
  simp only [Session.TellsTime, session, cancelledAtFirst, Session.times, Session.start,
    List.isEmpty_cons, Bool.false_eq_true, ↓reduceIte, List.mem_singleton, forall_eq]
  exact ⟨0, rfl⟩

def silentStage : Stage := ⟨"alpha", [], [], fun _ _ => ⟨[], .noDelta⟩⟩

theorem cancelledAtFirst_noticed :
    (cancelledAtFirst (some "deaf") oneFailing).run.result = .error (cancelledDuring "alpha")
      ∧ ¬ EndsUnnoticed cancelledContext oneFailing
        (cancelledAtFirst (some "deaf") oneFailing).run.journal
      ∧ (cancelledAtFirst none oneFailing).run.result = .error (cancelledDuring "alpha")
      ∧ ∃ report, (cancelledAtFirst none [silentStage]).run.result = .ok report := by
  have begins := cancelledAtFirst_comesTo (some "deaf") (show orderError? oneFailing = none by cbv)
  have asked : (cancelledAtFirst (some "deaf") oneFailing).AskedIn
      (cancelledAtFirst (some "deaf") oneFailing).run.journal := by
    rw [begins.run_eq]
    exact .inr ⟨_, [_], _, _, rfl, rfl, rfl⟩
  have result : (cancelledAtFirst (some "deaf") oneFailing).run.result
      = .error (cancelledDuring "alpha") := by
    rw [begins.run_eq]
    rfl
  have beginsSilent := cancelledAtFirst_comesTo none (show orderError? [silentStage] = none by cbv)
  have askedSilent : (cancelledAtFirst none [silentStage]).AskedIn
      (cancelledAtFirst none [silentStage]).run.journal := by
    rw [beginsSilent.run_eq]
    exact .inr ⟨_, [_], _, _, rfl, rfl, rfl⟩
  have unnoticed : EndsUnnoticed cancelledContext [silentStage]
      (cancelledAtFirst none [silentStage]).run.journal := by
    rw [beginsSilent.run_eq]
    refine .inr ⟨rfl, silentStage, rfl, _, rfl, ?_⟩
    show ∀ step ∈ stepsAfter 0 [], step.looksAtFlag = false
    simp [stepsAfter]
  obtain ⟨-, ends, others⟩ := cancellation_ends_analysis begins
  obtain ⟨-, endsSilent, -⟩ := cancellation_ends_analysis beginsSilent
  refine ⟨result, ?_, ?_, ?_⟩
  · rcases ((ends asked (cancelledAtFirst_tells _ _)).2
        fun stage member => oneFailing_ordinary stage member _).1 with
      ⟨notUnnoticed, -⟩ | ⟨-, outcomes, folds⟩ | ⟨outcomes, stage, delta, stops⟩
    · exact notUnnoticed
    · obtain ⟨duration, published⟩ := folds.published
      rw [result] at published
      cases published
    · obtain ⟨fault, ended⟩ := stops.ended
      rw [result] at ended
      cases ended
  · rw [← result]
    exact (others _ ⟨fun earlier _ => ⟨earlier.isEmpty, none⟩⟩ rfl fun _ _ => rfl).2.2
  · have ordinary : ∀ stage ∈ [silentStage], ∀ snapshot,
        (stage.run cancelledContext snapshot).result.IsOrdinary := by
      intro stage member snapshot
      rw [List.mem_singleton.mp member]
      trivial
    rcases ((endsSilent askedSilent (cancelledAtFirst_tells _ _)).2 ordinary).1 with
      ⟨notUnnoticed, -⟩ | ⟨-, outcomes, folds⟩ | ⟨outcomes, stage, delta, stops⟩
    · exact absurd unnoticed notUnnoticed
    · obtain ⟨duration, published⟩ := folds.published
      exact ⟨_, published⟩
    · have returned := stops.returned
      rw [List.mem_singleton.mp stops.mem] at returned
      cases returned

end Analysis

end Surveyor
