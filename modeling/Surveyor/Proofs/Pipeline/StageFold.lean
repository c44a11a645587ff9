import Mathlib.Data.List.Induction
import Surveyor.Pipeline.Engine
import Surveyor.Proofs.Pipeline.Session
import Surveyor.Proofs.Value.Merge

/-! # A run folds the deltas of its stages

What a run comes to is determined by what its stages return. The report holds the record of the run
and, beside it, the deltas of the stages that returned one, merged in the order of the stages; a
stage that fails leaves no trace but its entry in the record. Each stage sees the report so far,
frozen and cut down to what it reads. A run that nobody disturbs only ends otherwise if a stage returns
what cannot be merged.

The induction is over the stages still to run. Its invariant is `reportAfter`: the report is the
record of the outcomes so far in front of their merged deltas.
-/

namespace Surveyor

namespace StageResult

def delta? : StageResult → Option Entries
  | .delta entries => some entries
  | _ => none

def failure? : StageResult → Option StageFailure
  | .failed failure => some failure
  | _ => none

/-- How a stage ends that neither stops the run nor writes to its record: it returns, or it fails
with a failure of a kind that has a name. -/
def IsOrdinary : StageResult → Prop
  | .delta entries => recordKey ∉ entries.keys
  | .noDelta => True
  | .failed failure => failure.kind ≠ ""
  | .refused _ | .cancelled _ => False

/-- If the stage returned a mapping, then one that can be merged. -/
def Merges (result : StageResult) : Prop :=
  ∀ delta, result.delta? = some delta → (Value.map delta).hasOrderedSets = true

end StageResult

/-- A stage that was run, how it ended and how long it took. -/
structure StageOutcome where
  stage : Stage
  result : StageResult
  durationMs : Int

namespace StageOutcome

/-- The entry of a stage in the record: it failed, with the text of the failure, or it has
completed. -/
def entry (o : StageOutcome) : Value :=
  match o.result with
  | .failed failure =>
    .map [("name", .str o.stage.name), ("duration_ms", .int o.durationMs),
      ("status", .str "failed"), ("error", .str failure.message)]
  | _ =>
    .map [("name", .str o.stage.name), ("duration_ms", .int o.durationMs),
      ("status", .str "completed")]

end StageOutcome

def mergedDeltas (outcomes : List StageOutcome) : Entries :=
  (outcomes.filterMap (·.result.delta?)).foldl Entries.overlay []

def recordAfter (projectName : Value) (root analyzedAt : String) (outcomes : List StageOutcome) :
    Entries :=
  [("project_name", projectName), ("root_path", .str root), ("analyzed_at", .str analyzedAt),
    ("version", .str reportVersion), (layersKey, .list (outcomes.map StageOutcome.entry))]

/-- The report after some stages: the record, and their merged deltas. -/
def reportAfter (project : Project) (analyzedAt : String) (outcomes : List StageOutcome) : Entries :=
  (recordKey, .map (recordAfter project.displayName project.rootPath analyzedAt outcomes))
    :: mergedDeltas outcomes

/-- What a stage sees after others: the record so far, and of the merged deltas what it reads. -/
def snapshotAfter (project : Project) (analyzedAt : String) (outcomes : List StageOutcome)
    (stage : Stage) : Value :=
  (Value.map
    ((recordKey, .map (recordAfter project.displayName project.rootPath analyzedAt outcomes))
      :: (mergedDeltas outcomes).filter fun (key, _) => stage.reads.contains key)).freeze

/-- Whatever ran before it, the stage fails or returns what can be merged. -/
def Stage.Merges (context : StageContext) (analyzedAt : String) (stage : Stage) : Prop :=
  ∀ outcomes,
    (stage.run context (snapshotAfter context.project analyzedAt outcomes stage)).result.Merges

/-- After every stage, the deltas so far could be merged into nothing, one after the other. -/
def Merged (outcomes : List StageOutcome) : Prop :=
  ∀ k, ((outcomes.take k).filterMap (·.result.delta?)).foldlM Entries.merge []
    = .ok (mergedDeltas (outcomes.take k))

/-- The report of a run is the published fold of what its stages returned, and every stage returned
what it makes of the fold of those before it. -/
structure FoldsStages (context : StageContext) (analyzedAt : String) (stages : List Stage)
    (outcomes : List StageOutcome) (run : Run) : Prop where
  inOrder : outcomes.map (·.stage) = stages
  fromSnapshots : ∀ k (inRange : k < outcomes.length),
    outcomes[k].result = (outcomes[k].stage.run context
      (snapshotAfter context.project analyzedAt (outcomes.take k) outcomes[k].stage)).result
  invoked : invocations run.journal = outcomes.mapIdx fun k o =>
    (o.stage.name, snapshotAfter context.project analyzedAt (outcomes.take k) o.stage)
  failuresNamed : ∀ o ∈ outcomes, ∀ failure, o.result = .failed failure → failure.message ≠ ""
  merged : Merged outcomes
  published : ∃ duration : Int, run.result = .ok
    ((recordKey, .map
        (recordAfter context.project.displayName.publish context.project.rootPath analyzedAt outcomes
          ++ [("duration_ms", .int duration)]))
      :: Value.publishEntries (mergedDeltas outcomes))

/-- A run ends with the first stage that returns what cannot be merged into anything. This stage and
those before it returned what they make of the fold of those before them. -/
structure StopsUnmerged (context : StageContext) (analyzedAt : String) (stages : List Stage)
    (outcomes : List StageOutcome) (stage : Stage) (delta : Entries) (run : Run) : Prop where
  inOrder : outcomes.map (·.stage) ++ [stage] <+: stages
  fromSnapshots : ∀ k (inRange : k < outcomes.length),
    outcomes[k].result = (outcomes[k].stage.run context
      (snapshotAfter context.project analyzedAt (outcomes.take k) outcomes[k].stage)).result
  merged : Merged outcomes
  returned : (stage.run context (snapshotAfter context.project analyzedAt outcomes stage)).result
    = .delta delta
  unmerged : ∀ target : Entries, ∃ fault, target.merge delta = .error fault
  invoked : invocations run.journal = (outcomes.mapIdx fun k o =>
    (o.stage.name, snapshotAfter context.project analyzedAt (outcomes.take k) o.stage))
      ++ [(stage.name, snapshotAfter context.project analyzedAt outcomes stage)]
  ended : ∃ fault, run.result = .error (.record (.unmerged fault))

theorem StopsUnmerged.mem {context : StageContext} {analyzedAt : String} {stages : List Stage}
    {outcomes : List StageOutcome} {stage : Stage} {delta : Entries} {run : Run}
    (stops : StopsUnmerged context analyzedAt stages outcomes stage delta run) : stage ∈ stages :=
  stops.inOrder.subset (by simp)

/-! ## The report after each stage -/

@[simp]
theorem mergedDeltas_nil : mergedDeltas [] = [] := rfl

theorem mergedDeltas_append (done : List StageOutcome) (outcome : StageOutcome) :
    mergedDeltas (done ++ [outcome]) =
      match outcome.result.delta? with
      | some delta => (mergedDeltas done).overlay delta
      | none => mergedDeltas done := by
  unfold mergedDeltas
  cases returned : outcome.result.delta? <;>
    simp [List.filterMap_append, returned]

/-- Ordinary stages do not write to the record. -/
theorem recordKey_not_mem_mergedDeltas {outcomes : List StageOutcome}
    (ordinary : ∀ o ∈ outcomes, o.result.IsOrdinary) :
    recordKey ∉ (mergedDeltas outcomes).keys := by
  -- From the right, because the latest delta is merged into those before it.
  induction outcomes using List.reverseRecOn with
  | nil => simp
  | append_singleton done outcome inductionHypothesis =>
    have unwritten := inductionHypothesis fun o member => ordinary o (by simp [member])
    have latest := ordinary outcome (by simp)
    rw [mergedDeltas_append]
    cases ended : outcome.result with
    | delta entries =>
      rw [ended] at latest
      simp only [StageResult.delta?]
      intro member
      rcases Entries.mem_keys_overlay member with earlier | now
      · exact unwritten earlier
      · exact latest now
    | noDelta | failed _ | refused _ | cancelled _ => simpa [StageResult.delta?] using unwritten

/-- The part of the report that the engine hands to a stage. -/
theorem freeze_restrict_reportAfter (project : Project) (analyzedAt : String)
    {done : List StageOutcome} (ordinary : ∀ o ∈ done, o.result.IsOrdinary) (stage : Stage) :
    (Value.map (restrict (reportAfter project analyzedAt done) stage.reads)).freeze
      = snapshotAfter project analyzedAt done stage := by
  have unwritten := recordKey_not_mem_mergedDeltas ordinary
  -- The record is kept whatever a stage reads. No delta has its key, so this changes nothing else.
  have sameFilter : restrict (mergedDeltas done) stage.reads
      = (mergedDeltas done).filter fun (key, _) => stage.reads.contains key := by
    apply List.filter_congr
    rintro ⟨key, value⟩ member
    have different : key ≠ recordKey := by
      rintro rfl
      exact unwritten (List.mem_map_of_mem member)
    simp [different]
  unfold snapshotAfter
  rw [← sameFilter]
  simp [restrict, reportAfter]

theorem settle_delta_of_ordered (report : Entries) {delta : Entries}
    (ordered : (Value.map delta).hasOrderedSets = true) :
    settle report (.delta delta) = .ok (report.overlay delta, none) := by
  rw [settle, Entries.merge_of_ordered ordered]
  rfl

theorem settle_delta_of_unordered (report : Entries) {delta : Entries}
    (unordered : (Value.map delta).hasOrderedSets = false) :
    ∃ fault, settle report (.delta delta) = .error (.record (.unmerged fault)) := by
  obtain ⟨fault, failed⟩ := Entries.exists_fault_of_merge unordered report
  refine ⟨fault, ?_⟩
  rw [settle, failed]
  rfl

theorem settle_delta_eq_ok {report settled delta : Entries} {failure : Option StageFailure}
    (settles : settle report (.delta delta) = .ok (settled, failure)) :
    (Value.map delta).hasOrderedSets = true ∧ settled = report.overlay delta ∧ failure = none := by
  cases ordered : (Value.map delta).hasOrderedSets with
  | true =>
    rw [settle_delta_of_ordered report ordered] at settles
    cases settles
    exact ⟨rfl, rfl, rfl⟩
  | false =>
    obtain ⟨fault, failed⟩ := settle_delta_of_unordered report ordered
    rw [failed] at settles
    cases settles

theorem settle_reportAfter (project : Project) (analyzedAt : String) (done : List StageOutcome)
    {outcome : StageOutcome} (ordinary : outcome.result.IsOrdinary) (merges : outcome.result.Merges) :
    settle (reportAfter project analyzedAt done) outcome.result = .ok
      ((recordKey, .map (recordAfter project.displayName project.rootPath analyzedAt done))
        :: mergedDeltas (done ++ [outcome]), outcome.result.failure?) := by
  rw [mergedDeltas_append]
  cases ended : outcome.result with
  | delta entries =>
    rw [ended] at ordinary merges
    simp only [settle_delta_of_ordered _ (merges entries rfl), reportAfter, StageResult.delta?,
      StageResult.failure?]
    rw [Entries.overlay_cons_of_unmentioned _ _ ordinary]
  | noDelta => rfl
  | failed failure => rfl
  | refused _ | cancelled _ => simp [ended, StageResult.IsOrdinary] at ordinary

theorem entry_eq_toValue (outcome : StageOutcome) :
    outcome.entry = LayerRecord.toValue
      ⟨outcome.stage.name, outcome.durationMs,
        outcome.result.failure?.map StageFailure.message⟩ := by
  unfold StageOutcome.entry StageResult.failure?
  cases outcome.result <;> rfl

theorem appendLayer_recordAfter (projectName : Value) (root analyzedAt : String)
    (done : List StageOutcome) (outcome : StageOutcome) (deltas : Entries) :
    appendLayer ((recordKey, .map (recordAfter projectName root analyzedAt done)) :: deltas)
        ⟨outcome.stage.name, outcome.durationMs,
          outcome.result.failure?.map StageFailure.message⟩
      = .ok ((recordKey, .map (recordAfter projectName root analyzedAt (done ++ [outcome])))
          :: deltas) := by
  have layers : recordLayers (recordAfter projectName root analyzedAt done)
      = .ok (done.map StageOutcome.entry) := rfl
  -- The entries are the last field of the record and stay there.
  have entered : ∀ entries : List Value,
      Entries.insert layersKey (.list entries) (recordAfter projectName root analyzedAt done)
        = [("project_name", projectName), ("root_path", .str root),
            ("analyzed_at", .str analyzedAt), ("version", .str reportVersion),
            (layersKey, .list entries)] := fun _ => rfl
  simp only [appendLayer, recordEntries, List.lookup_cons, beq_self_eq_true, bind, Except.bind,
    layers, pure, Except.pure, ← entry_eq_toValue, entered]
  simp [Entries.insert, recordAfter]

/-! ## One stage -/

theorem Session.invoked_logFailure (s : Session) (stage : String) (failure : Option StageFailure) :
    (s.logFailure stage failure).invoked = s.invoked := by
  cases failure with
  | none => rfl
  | some failure => exact s.invoked_log _ _

theorem Session.Steady.logFailure {clock : List Quantity} {s : Session} (steady : s.Steady clock)
    (stage : String) (failure : Option StageFailure) :
    (s.logFailure stage failure).Steady clock := by
  cases failure with
  | none => exact steady
  | some failure => exact steady.log _ _

/-- Announcing a stage reads the clock and notes one invocation. -/
theorem Session.Steady.announceStage {clock : List Quantity} {s : Session} (steady : s.Steady clock)
    (stage : Stage) (index total : Nat) (snapshot : Value) :
    ∃ started after, announceStage stage index total snapshot s = (started, after)
      ∧ started ∈ clock ∧ after.Steady clock
      ∧ after.invoked = s.invoked ++ [(stage.name, snapshot)] := by
  let event : ProgressEvent := ⟨.str stage.name, .ofNat index, .ofNat total, .str "running"⟩
  let announced := (s.deliver event).log .debug ("Running stage " ++ stage.name)
  have steadyAnnounced : announced.Steady clock := (steady.deliver event).log _ _
  refine ⟨announced.readClock.1, announced.readClock.2.note (.invoked stage.name snapshot), rfl,
    steadyAnnounced.reading_mem, steadyAnnounced.readClock.note _, ?_⟩
  rw [Session.invoked_note_invoked, Session.invoked_readClock, Session.invoked_log,
    Session.invoked_deliver]

section

variable {clock : List Quantity} (tells : Session.TellsTime clock) (context : StageContext)
  (analyzedAt : String)

include tells

/-- A stage with an ordinary end is invoked once, on the snapshot of the outcomes before it, and adds
its outcome to the report, unless it returns what cannot be merged. -/
theorem runStage_reportAfter {s : Session} (steady : s.Steady clock) (stage : Stage)
    (index total : Nat) {done : List StageOutcome} (ordinary : ∀ o ∈ done, o.result.IsOrdinary)
    {result : StageResult} (returned :
      (stage.run context (snapshotAfter context.project analyzedAt done stage)).result = result)
    (ordinaryNow : result.IsOrdinary) :
    ∃ after, after.Steady clock
      ∧ after.invoked
        = s.invoked ++ [(stage.name, snapshotAfter context.project analyzedAt done stage)]
      ∧ ((result.Merges ∧ ∃ duration,
          runStage context stage index total (reportAfter context.project analyzedAt done) s
            = (after, .ok (reportAfter context.project analyzedAt (done ++ [⟨stage, result, duration⟩]))))
        ∨ ∃ delta fault, result = .delta delta ∧ (Value.map delta).hasOrderedSets = false
          ∧ runStage context stage index total (reportAfter context.project analyzedAt done) s
            = (after, .error (.record (.unmerged fault)))) := by
  obtain ⟨started, announced, announces, startedKnown, steadyAnnounced, invokedNow⟩ :=
    steady.announceStage stage index total (snapshotAfter context.project analyzedAt done stage)
  obtain ⟨worked, takes, steadyWorked, invokedWorked⟩ := steadyAnnounced.take stage.name
    (stage.run context (snapshotAfter context.project analyzedAt done stage)).steps
  by_cases merges : result.Merges
  · have steadyLogged := steadyWorked.logFailure stage.name result.failure?
    -- Both readings of the clock are known, so the time between them can be told.
    obtain ⟨duration, elapsed⟩ := tells started startedKnown _ steadyLogged.reading_mem
    refine ⟨(worked.logFailure stage.name result.failure?).readClock.2, steadyLogged.readClock, ?_,
      .inl ⟨merges, duration, ?_⟩⟩
    · rw [Session.invoked_readClock, Session.invoked_logFailure, invokedWorked, invokedNow]
    · let outcome : StageOutcome := ⟨stage, result, duration⟩
      have settles := settle_reportAfter context.project analyzedAt done
        (show outcome.result.IsOrdinary from ordinaryNow) merges
      have appends := appendLayer_recordAfter context.project.displayName context.project.rootPath
        analyzedAt done outcome (mergedDeltas (done ++ [outcome]))
      simp only [outcome] at settles appends
      simp only [runStage, steady.notCancelled, Bool.false_eq_true, ↓reduceIte,
        freeze_restrict_reportAfter context.project analyzedAt ordinary, announces, takes, returned,
        settles, elapsed, appends]
      rfl
  · simp only [StageResult.Merges, not_forall, Bool.not_eq_true] at merges
    obtain ⟨delta, isDelta, unordered⟩ := merges
    obtain rfl : result = .delta delta := by
      cases result <;> cases isDelta
      rfl
    obtain ⟨fault, settles⟩ := settle_delta_of_unordered
      (reportAfter context.project analyzedAt done) unordered
    refine ⟨worked, steadyWorked, by rw [invokedWorked, invokedNow],
      .inr ⟨delta, fault, rfl, unordered, ?_⟩⟩
    simp only [runStage, steady.notCancelled, Bool.false_eq_true, ↓reduceIte,
      freeze_restrict_reportAfter context.project analyzedAt ordinary, announces, takes, returned,
      settles]

/-! ## All stages -/

omit tells in
/-- What the stages after `done` came to: which outcomes they had, and on which snapshots. -/
structure StagesDone (done : List StageOutcome) (stages : List Stage) (outcomes : List StageOutcome)
    (before after : Session) : Prop where
  inOrder : outcomes.map (·.stage) = stages
  ordinary : ∀ o ∈ outcomes, o.result.IsOrdinary
  merges : ∀ o ∈ outcomes, o.result.Merges
  fromSnapshots : ∀ k (inRange : k < outcomes.length),
    outcomes[k].result = (outcomes[k].stage.run context
      (snapshotAfter context.project analyzedAt (done ++ outcomes.take k) outcomes[k].stage)).result
  invoked : after.invoked = before.invoked ++ outcomes.mapIdx fun k o =>
    (o.stage.name, snapshotAfter context.project analyzedAt (done ++ outcomes.take k) o.stage)

omit tells in
/-- A stage was invoked after others, and returned what cannot be merged. -/
structure Balks (done : List StageOutcome) (stage : Stage) (delta : Entries)
    (before after : Session) : Prop where
  returned : (stage.run context (snapshotAfter context.project analyzedAt done stage)).result
    = .delta delta
  unordered : (Value.map delta).hasOrderedSets = false
  invoked : after.invoked
    = before.invoked ++ [(stage.name, snapshotAfter context.project analyzedAt done stage)]

omit tells in
theorem StagesDone.cons {done outcomes : List StageOutcome} {outcome : StageOutcome}
    {stages : List Stage} {before between after : Session}
    (returned : (outcome.stage.run context
      (snapshotAfter context.project analyzedAt done outcome.stage)).result = outcome.result)
    (ordinary : outcome.result.IsOrdinary) (merges : outcome.result.Merges)
    (invoked : between.invoked = before.invoked
      ++ [(outcome.stage.name, snapshotAfter context.project analyzedAt done outcome.stage)])
    (later : StagesDone context analyzedAt (done ++ [outcome]) stages outcomes between after) :
    StagesDone context analyzedAt done (outcome.stage :: stages) (outcome :: outcomes) before
      after where
  inOrder := by rw [List.map_cons, later.inOrder]
  ordinary := List.forall_mem_cons.mpr ⟨ordinary, later.ordinary⟩
  merges := List.forall_mem_cons.mpr ⟨merges, later.merges⟩
  fromSnapshots := by
    -- Every snapshot of the rest has the first outcome in front of those before it.
    intro k inRange
    cases k with
    | zero => simp [returned]
    | succ k =>
      have laterFrom := later.fromSnapshots k (by simpa using inRange)
      simpa using laterFrom
  invoked := by
    rw [later.invoked, invoked, List.mapIdx_cons]
    simp

/-- Stages with ordinary ends are all folded, or those before one that returns what cannot be merged. -/
theorem runStages_reportAfter {s : Session} (steady : s.Steady clock) (stages : List Stage)
    (index total : Nat) {done : List StageOutcome} (ordinary : ∀ o ∈ done, o.result.IsOrdinary)
    (ordinaryStages : ∀ stage ∈ stages, ∀ snapshot, (stage.run context snapshot).result.IsOrdinary) :
    ∃ after outcomes, after.Steady clock
      ∧ ((StagesDone context analyzedAt done stages outcomes s after
          ∧ runStages context total stages index (reportAfter context.project analyzedAt done) s
            = (after, .ok (reportAfter context.project analyzedAt (done ++ outcomes))))
        ∨ ∃ ran stage rest between delta fault, stages = ran ++ stage :: rest
          ∧ StagesDone context analyzedAt done ran outcomes s between
          ∧ Balks context analyzedAt (done ++ outcomes) stage delta between after
          ∧ runStages context total stages index (reportAfter context.project analyzedAt done) s
            = (after, .error (.record (.unmerged fault)))) := by
  induction stages generalizing s index done with
  | nil =>
    refine ⟨s, [], steady, .inl ⟨?_, ?_⟩⟩
    · constructor <;> simp
    · simp [runStages]
  | cons stage rest inductionHypothesis =>
    have ordinaryNow := ordinaryStages stage (by simp)
      (snapshotAfter context.project analyzedAt done stage)
    obtain ⟨between, steadyBetween, invokedNow, ends⟩ := runStage_reportAfter tells context analyzedAt
      steady stage index total ordinary rfl ordinaryNow
    rcases ends with ⟨merges, duration, ranStage⟩ | ⟨delta, fault, returned, unordered, ranStage⟩
    · -- The first stage joins those that are done, and the hypothesis speaks of the report after it.
      generalize isOutcome : StageOutcome.mk stage
        (stage.run context (snapshotAfter context.project analyzedAt done stage)).result duration
          = outcome at ranStage
      have ordinaryDone : ∀ o ∈ done ++ [outcome], o.result.IsOrdinary := by
        intro o member
        rcases List.mem_append.mp member with earlier | latest
        · exact ordinary o earlier
        · rw [List.mem_singleton.mp latest, ← isOutcome]
          exact ordinaryNow
      obtain ⟨after, outcomes, steadyAfter, ends⟩ := inductionHypothesis steadyBetween
        (index + 1) ordinaryDone fun later member => ordinaryStages later (by simp [member])
      refine ⟨after, outcome :: outcomes, steadyAfter, ?_⟩
      subst isOutcome
      rcases ends with ⟨restDone, ranRest⟩ | ⟨ran, last, later, before, delta, fault, split, restDone,
        balks, ranRest⟩
      · refine .inl ⟨restDone.cons context analyzedAt rfl ordinaryNow merges invokedNow, ?_⟩
        simp only [runStages, ranStage, ranRest]
        simp
      · refine .inr ⟨stage :: ran, last, later, before, delta, fault, by rw [split, List.cons_append],
          restDone.cons context analyzedAt rfl ordinaryNow merges invokedNow, ?_, ?_⟩
        · simpa using balks
        · simp only [runStages, ranStage, ranRest]
    · refine ⟨between, [], steadyBetween, .inr ⟨[], stage, rest, s, delta, fault, rfl, ?_, ?_, ?_⟩⟩
      · constructor <;> simp
      · rw [List.append_nil]
        exact ⟨returned, unordered, invokedNow⟩
      · simp only [runStages, ranStage]

end

/-! ## The end of a run -/

theorem failedNames_entries (outcomes : List StageOutcome) :
    ∃ names : List String, failedNames (outcomes.map StageOutcome.entry) = .ok (names.map .str) := by
  induction outcomes with
  | nil => exact ⟨[], rfl⟩
  | cons outcome rest inductionHypothesis =>
    obtain ⟨names, failedRest⟩ := inductionHypothesis
    cases ended : outcome.result with
    | failed failure =>
      refine ⟨outcome.stage.name :: names, ?_⟩
      simp [StageOutcome.entry, ended, failedNames, List.lookup_cons, failedRest, bind, Except.bind,
        pure, Except.pure]
    | delta _ | noDelta | refused _ | cancelled _ =>
      refine ⟨names, ?_⟩
      simp [StageOutcome.entry, ended, failedNames, List.lookup_cons, failedRest]

theorem publishItems_entries (outcomes : List StageOutcome) :
    Value.publishItems (outcomes.map StageOutcome.entry) = outcomes.map StageOutcome.entry := by
  induction outcomes with
  | nil => rfl
  | cons outcome rest inductionHypothesis =>
    have published : outcome.entry.publish = outcome.entry := by
      unfold StageOutcome.entry
      cases outcome.result <;> rfl
    simp [Value.publishItems, published, inductionHypothesis]

/-- Publishing the finished report leaves its record as it is, but for the name of the project. -/
theorem publishEntries_finished (projectName : Value) (root analyzedAt : String)
    (outcomes : List StageOutcome) (duration : Int) (deltas : Entries) :
    Value.publishEntries
        ((recordKey, .map (recordAfter projectName root analyzedAt outcomes
          ++ [("duration_ms", Value.int duration)])) :: deltas)
      = (recordKey, .map (recordAfter projectName.publish root analyzedAt outcomes
          ++ [("duration_ms", Value.int duration)])) :: Value.publishEntries deltas := by
  have visible : ∀ key ∈ [recordKey, "project_name", "root_path", "analyzed_at", "version",
      layersKey, "duration_ms"], isInternalKey key = false := by decide
  simp only [List.mem_cons, List.not_mem_nil, or_false, forall_eq_or_imp, forall_eq] at visible
  simp [Value.publishEntries, Value.publish, recordAfter, publishItems_entries, visible]

theorem finishRecord_reportAfter (project : Project) (analyzedAt : String)
    (outcomes : List StageOutcome) (duration : Int) :
    ∃ names, finishRecord (reportAfter project analyzedAt outcomes) duration = .ok
      ((recordKey, .map (recordAfter project.displayName project.rootPath analyzedAt outcomes
        ++ [("duration_ms", Value.int duration)])) :: mergedDeltas outcomes, names) := by
  obtain ⟨names, failed⟩ := failedNames_entries outcomes
  have layers : recordLayers (recordAfter project.displayName project.rootPath analyzedAt outcomes)
      = .ok (outcomes.map StageOutcome.entry) := rfl
  have allNamed : ((names.map Value.str).all fun name => name.str?.isSome) = true := by
    simp [Value.str?]
  refine ⟨(names.map Value.str).map Value.asStr, ?_⟩
  simp only [finishRecord, reportAfter, recordEntries, List.lookup_cons, beq_self_eq_true, bind,
    Except.bind, layers, failed, allNamed, ↓reduceIte, pure, Except.pure]
  rfl

theorem finishRun_reportAfter {clock : List Quantity} (tells : Session.TellsTime clock)
    {started : Quantity} (startedKnown : started ∈ clock) {s : Session} (steady : s.Steady clock)
    (project : Project) (analyzedAt : String) (outcomes : List StageOutcome) :
    ∃ after duration, after.invoked = s.invoked
      ∧ finishRun started (reportAfter project analyzedAt outcomes) s = (after, .ok
        ((recordKey, .map
          (recordAfter project.displayName.publish project.rootPath analyzedAt outcomes
            ++ [("duration_ms", Value.int duration)])) :: Value.publishEntries (mergedDeltas outcomes))) := by
  obtain ⟨duration, elapsed⟩ := tells started startedKnown _ steady.reading_mem
  obtain ⟨names, finished⟩ := finishRecord_reportAfter project analyzedAt outcomes duration
  simp only [finishRun, elapsed, finished, publishEntries_finished]
  refine ⟨_, duration, ?_, rfl⟩
  split <;> rw [Session.invoked_log, Session.invoked_readClock]

theorem merged_of_merges {outcomes : List StageOutcome} (merges : ∀ o ∈ outcomes, o.result.Merges) :
    Merged outcomes := by
  intro k
  refine Entries.foldlM_merge_of_ordered (fun delta member => ?_) []
  obtain ⟨o, inPart, returned⟩ := List.mem_filterMap.mp member
  exact merges o (List.mem_of_mem_take inPart) delta returned

/-- A failure without a text is told by its kind. -/
theorem failuresNamed_of_ordinary {outcomes : List StageOutcome}
    (ordinary : ∀ o ∈ outcomes, o.result.IsOrdinary) :
    ∀ o ∈ outcomes, ∀ failure, o.result = .failed failure → failure.message ≠ "" := by
  intro o member failure ended
  have named := ordinary o member
  rw [ended] at named
  unfold StageFailure.message
  split
  · exact named
  · next nonempty => simpa using nonempty

section

variable {clock : List Quantity} (tells : Session.TellsTime clock) (context : StageContext)
  (analyzedAt : String) {s : Session} (steady : s.Steady clock) (fresh : s.invoked = [])
  {stages : List Stage}
  (ordinary : ∀ stage ∈ stages, ∀ snapshot, (stage.run context snapshot).result.IsOrdinary)

include tells steady fresh ordinary

/-- A pipeline of ordinary stages folds their deltas up to the first one that cannot be merged. -/
theorem runPipeline_folds_or_stops {run : Run} (isRun : run = ⟨(runPipeline context analyzedAt stages
      s).1.journal, (runPipeline context analyzedAt stages s).2⟩) :
    (∃ outcomes, FoldsStages context analyzedAt stages outcomes run)
      ∨ ∃ outcomes stage delta, StopsUnmerged context analyzedAt stages outcomes stage delta run := by
  subst isRun
  let opened := s.log .info ("Starting analysis of " ++ context.project.rootPath ++ " ("
    ++ toString stages.length ++ " stages)")
  have steadyOpened : opened.Steady clock := steady.log _ _
  have nothingYet : opened.readClock.2.invoked = [] := by
    rw [Session.invoked_readClock, Session.invoked_log, fresh]
  -- The report that a run starts from is the one after no stages.
  have start : initialReport context.project.displayName context.project.rootPath analyzedAt
      = reportAfter context.project analyzedAt [] := rfl
  obtain ⟨worked, outcomes, steadyWorked, ends⟩ := runStages_reportAfter tells context analyzedAt
    steadyOpened.readClock stages 1 stages.length (by simp : ∀ o ∈ [], _) ordinary
  rcases ends with ⟨done, ran⟩ | ⟨before, stage, rest, between, delta, fault, split, done, balks, ran⟩
  · obtain ⟨after, duration, sameInvoked, finished⟩ := finishRun_reportAfter tells
      steadyOpened.reading_mem steadyWorked context.project analyzedAt outcomes
    have wholeRun : runPipeline context analyzedAt stages s = (after, .ok
        ((recordKey, .map (recordAfter context.project.displayName.publish context.project.rootPath
          analyzedAt outcomes ++ [("duration_ms", Value.int duration)]))
          :: Value.publishEntries (mergedDeltas outcomes))) := by
      simp only [runPipeline, start, opened] at ran finished ⊢
      rw [ran]
      exact finished
    rw [wholeRun]
    refine .inl ⟨outcomes, done.inOrder, by simpa using done.fromSnapshots, ?_,
      failuresNamed_of_ordinary done.ordinary, merged_of_merges done.merges, duration, rfl⟩
    have invokedInAll : after.invoked = _ := sameInvoked.trans done.invoked
    rw [nothingYet] at invokedInAll
    simpa [Session.invoked] using invokedInAll
  · have wholeRun : runPipeline context analyzedAt stages s
        = (worked, .error (.record (.unmerged fault))) := by
      simp only [runPipeline, start, opened] at ran ⊢
      rw [ran]
    rw [wholeRun]
    refine .inr ⟨outcomes, stage, delta, ⟨rest, ?_⟩, by simpa using done.fromSnapshots,
      merged_of_merges done.merges, by simpa using balks.returned,
      Entries.exists_fault_of_merge balks.unordered, ?_, fault, rfl⟩
    · rw [done.inOrder, split, List.append_assoc, List.singleton_append]
    · have invokedInAll := balks.invoked
      rw [done.invoked, nothingYet] at invokedInAll
      simpa [Session.invoked] using invokedInAll

/-- Stages whose deltas can be merged are all folded. -/
theorem runPipeline_folds (merges : ∀ stage ∈ stages, stage.Merges context analyzedAt) :
    ∃ outcomes, FoldsStages context analyzedAt stages outcomes
      ⟨(runPipeline context analyzedAt stages s).1.journal,
        (runPipeline context analyzedAt stages s).2⟩ := by
  rcases runPipeline_folds_or_stops tells context analyzedAt steady fresh ordinary rfl with
    folds | ⟨outcomes, stage, delta, stops⟩
  · exact folds
  · have ordered := merges stage stops.mem _ delta (by rw [stops.returned]; rfl)
    obtain ⟨fault, unmerged⟩ := stops.unmerged []
    rw [Entries.merge_of_ordered ordered] at unmerged
    cases unmerged

end

/-! ## From the root to the report -/

/-- Settings are given, or those of the project can be read, or what is wrong with them is
tolerated. -/
def SettingsUsable (around : Surroundings) (place : List String) (given : Option Settings) : Prop :=
  given.isSome ∨ ∀ fault, Settings.load around.readYaml around.tree place around.projectType = .error fault →
    fault.isTolerated = true

theorem chooseSettings_usable {clock : List Quantity} {around : Surroundings} {place : List String}
    {given : Option Settings} (usable : SettingsUsable around place given) {s : Session}
    (steady : s.Steady clock) :
    ∃ after settings, chooseSettings around place given s = (after, .ok settings)
      ∧ after.Steady clock ∧ after.invoked = s.invoked := by
  unfold chooseSettings
  cases given with
  | some settings => exact ⟨s, settings, rfl, steady, rfl⟩
  | none =>
    simp only
    cases loaded : Settings.load around.readYaml around.tree place around.projectType with
    | ok settings => exact ⟨s, settings, rfl, steady, rfl⟩
    | error fault =>
      have tolerated : fault.isTolerated = true := by
        rcases usable with isGiven | tolerates
        · simp at isGiven
        · exact tolerates fault loaded
      simp only [tolerated, ↓reduceIte]
      exact ⟨_, _, rfl, steady.log _ _, s.invoked_log _ _⟩

theorem chooseSettings_unusable {around : Surroundings} {place : List String}
    {given : Option Settings} (unusable : ¬ SettingsUsable around place given) (s : Session) :
    ∃ fault, fault.isTolerated = false
      ∧ chooseSettings around place given s = (s, .error (.settings fault)) := by
  simp only [SettingsUsable, not_or, not_forall] at unusable
  obtain ⟨notGiven, fault, loaded, intolerable⟩ := unusable
  cases given with
  | some settings => simp at notGiven
  | none =>
    simp only [Bool.not_eq_true] at intolerable
    exact ⟨fault, intolerable, by simp [chooseSettings, loaded, intolerable]⟩

theorem checkRoot_directory {around : Surroundings} {path root : String} {place : List String}
    {entries : List (String × FileNode)} (given : path ≠ "")
    (expanded : expandHome around.home path = .ok root)
    (found : (around.tree.names? around.here root).bind around.tree.find?
      = some (place, .directory entries)) :
    checkRoot around path = .ok place := by
  simp [checkRoot, given, expanded, found, bind, Except.bind, pure, Except.pure]

/-- A run of ordinary stages at an existing root that nobody cancels folds the deltas of its stages,
provided that its settings can be used, up to the first one that cannot be merged; if all of them can, it
gives a report. Without usable settings it ends before the first stage. -/
theorem analyze_folds_stages (around : Surroundings) (overrides : Overrides) (project : Project)
    (listener : Option Listener) (readings : List Quantity) (stages : List Stage) (root : String)
    (place : List String) (entries : List (String × FileNode)) (rootGiven : project.rootPath ≠ "")
    (expanded : expandHome around.home project.rootPath = .ok root)
    (rootFound : (around.tree.names? around.here root).bind around.tree.find?
      = some (place, .directory entries))
    (stagesGiven : overrides.stages = some stages) (accepted : orderError? stages = none)
    (ordinary : ∀ stage ∈ stages, ∀ context snapshot,
      (stage.run context snapshot).result.IsOrdinary)
    (neverCancels : ∀ l, listener = some l → ∀ earlier event,
      (l.react earlier event).cancels = false)
    (tells : Session.TellsTime (Session.start listener false readings).times) :
    (SettingsUsable around place overrides.settings → ∃ settings context,
      (chooseSettings around place overrides.settings (.start listener false readings)).2
          = .ok settings
        ∧ context = ⟨project.effective (around.tree.absolute place) settings, settings, around.tree,
            around.now⟩
        ∧ ((∃ outcomes, FoldsStages context around.analyzedAt stages outcomes
            (analyze around overrides project (.start listener false readings)))
          ∨ ∃ outcomes stage delta, StopsUnmerged context around.analyzedAt stages outcomes stage delta
            (analyze around overrides project (.start listener false readings)))
        ∧ ((∀ stage ∈ stages, stage.Merges context around.analyzedAt) →
          ∃ outcomes, FoldsStages context around.analyzedAt stages outcomes
            (analyze around overrides project (.start listener false readings))))
    ∧ (¬ SettingsUsable around place overrides.settings → ∃ fault, fault.isTolerated = false
      ∧ analyze around overrides project (.start listener false readings)
        = ⟨[], .error (.settings fault)⟩) := by
  have steady : (Session.start listener false readings).Steady
      (Session.start listener false readings).times :=
    ⟨rfl, neverCancels, fun _ member => member⟩
  have root := checkRoot_directory rootGiven expanded rootFound
  constructor
  · intro usable
    obtain ⟨chosen, settings, choice, steadyChosen, sameInvoked⟩ :=
      chooseSettings_usable usable steady
    have stagesChosen : chooseStages around settings overrides.stages = .ok stages := by
      simp [chooseStages, stagesGiven, accepted, bind, Except.bind, pure, Except.pure]
    let context : StageContext :=
      ⟨project.effective (around.tree.absolute place) settings, settings, around.tree, around.now⟩
    have isRun : analyze around overrides project (.start listener false readings)
        = ⟨(runPipeline context around.analyzedAt stages chosen).1.journal,
          (runPipeline context around.analyzedAt stages chosen).2⟩ := by
      simp only [analyze, root, choice, stagesChosen, context]
    have ordinaryHere : ∀ stage ∈ stages, ∀ snapshot, (stage.run context snapshot).result.IsOrdinary :=
      fun stage member => ordinary stage member context
    refine ⟨settings, context, by rw [choice], rfl, runPipeline_folds_or_stops tells context _ steadyChosen
      sameInvoked ordinaryHere isRun, fun merges => ?_⟩
    rw [isRun]
    exact runPipeline_folds tells context _ steadyChosen sameInvoked ordinaryHere merges
  · intro unusable
    obtain ⟨fault, intolerable, choice⟩ :=
      chooseSettings_unusable unusable (.start listener false readings)
    refine ⟨fault, intolerable, ?_⟩
    simp only [analyze, root, choice]
    rfl

def besideSettings (bytes : ByteArray) : Surroundings :=
  ⟨⟨"/srv", .directory [("app", .directory [(settingsFileName, .file bytes 0)])]⟩, [], fun _ => none,
    none, 0, "now", [], Yaml.Document.ofText⟩

def Stage.ending (name : String) (reads : List String) (result : StageResult) : Stage :=
  ⟨name, reads, [], fun _ _ => ⟨[.checkpoint], result⟩⟩

/-- Two stages, of which the second fails without a text. -/
def oneFailing : List Stage :=
  [.ending "alpha" [] (.delta [("alpha", .int 1)]),
    .ending "beta" ["alpha"] (.failed ⟨"RuntimeError", ""⟩)]

theorem oneFailing_ordinary : ∀ stage ∈ oneFailing, ∀ context snapshot,
    (stage.run context snapshot).result.IsOrdinary := by
  intro stage member context snapshot
  simp only [oneFailing, List.mem_cons, List.not_mem_nil, or_false] at member
  rcases member with rfl | rfl
  · show recordKey ∉ Entries.keys [("alpha", .int 1)]
    decide
  · show "RuntimeError" ≠ ""
    decide

theorem oneFailing_merges : ∀ stage ∈ oneFailing, ∀ context snapshot,
    (stage.run context snapshot).result.Merges := by
  intro stage member context snapshot
  simp only [oneFailing, List.mem_cons, List.not_mem_nil, or_false] at member
  rcases member with rfl | rfl
  · rintro _ ⟨⟩
    rfl
  · rintro _ ⟨⟩

theorem analyze_folds_oneFailing :
    (∃ settings outcomes, FoldsStages
      ⟨({ rootPath := "/srv/app" } : Project).effective "/srv/app" settings, settings,
        (besideSettings ⟨#[]⟩).tree, 0⟩ "now" oneFailing outcomes
      (analyze (besideSettings ⟨#[]⟩) ⟨none, some oneFailing⟩ { rootPath := "/srv/app" }
        (.start none false [.whole 0])))
    ∧ ∃ fault, analyze (besideSettings ⟨#[255]⟩) ⟨none, some oneFailing⟩
      { rootPath := "/srv/app" } (.start none false [.whole 0])
        = ⟨[], .error (.settings fault)⟩ := by
  have tells : Session.TellsTime [.whole 0] := by
    simp only [Session.TellsTime, List.mem_singleton, forall_eq]
    exact ⟨0, rfl⟩
  have accepted : orderError? oneFailing = none := by cbv
  have usable : SettingsUsable (besideSettings ⟨#[]⟩) ["app"] none := by
    refine .inr fun fault loaded => ?_
    have read : Settings.load Yaml.Document.ofText (besideSettings ⟨#[]⟩).tree ["app"] none
      = .ok { root := "/srv/app" } := by rfl
    simp [besideSettings] at loaded read
    simp [read] at loaded
  have unusable : ¬ SettingsUsable (besideSettings ⟨#[255]⟩) ["app"] none := by
    rintro (given | tolerated)
    · simp at given
    · exact absurd (tolerated (.undecodable ⟨0, [255], .start⟩) rfl) (by decide)
  constructor
  · obtain ⟨settings, _, -, rfl, -, folds⟩ := (analyze_folds_stages (besideSettings ⟨#[]⟩)
      ⟨none, some oneFailing⟩ { rootPath := "/srv/app" } none [.whole 0] oneFailing "/srv/app" ["app"] _
      (by decide) rfl (by rfl) rfl accepted oneFailing_ordinary (by simp) tells).1 usable
    obtain ⟨outcomes, folds⟩ := folds fun stage member _ => oneFailing_merges stage member _ _
    exact ⟨settings, outcomes, folds⟩
  · obtain ⟨fault, _, ends⟩ := (analyze_folds_stages (besideSettings ⟨#[255]⟩)
      ⟨none, some oneFailing⟩ { rootPath := "/srv/app" } none [.whole 0] oneFailing "/srv/app" ["app"] _
      (by decide) rfl (by rfl) rfl accepted oneFailing_ordinary (by simp) tells).2 unusable
    exact ⟨fault, ends⟩

end Surveyor
