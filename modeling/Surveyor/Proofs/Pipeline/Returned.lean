import Surveyor.Proofs.Pipeline.StageFold
import Surveyor.Proofs.Value.Fault
import Surveyor.Proofs.Value.Publish

/-! # Analyses that returned a report

Nothing is assumed here about stages, listeners and clocks; what counts is that the analysis came to an
end. Its report is then what the stages made of the initial report, published. As long as no stage
writes to the record, it is the fold of the deltas that the stages returned on the snapshots they were
handed (`runPipeline_returned`).
-/

namespace Surveyor

/-- An analysis: where it takes place, of what, and who listens to it. -/
structure Analysis where
  around : Surroundings
  overrides : Overrides
  project : Project
  listener : Option Listener
  /-- Whether it is cancelled before it begins. -/
  isCancelled : Bool
  readings : List Quantity

namespace Analysis

def session (a : Analysis) : Session := .start a.listener a.isCancelled a.readings

def run (a : Analysis) : Run := analyze a.around a.overrides a.project a.session

/-- The analysis comes to its stages: its root is a directory, and it has settings and stages in an
order that holds. -/
def ComesTo (a : Analysis) (context : StageContext) (stages : List Stage) (opened : Session) : Prop :=
  ∃ place settings, checkRoot a.around a.project.rootPath = .ok place
    ∧ chooseSettings a.around place a.overrides.settings a.session = (opened, .ok settings)
    ∧ chooseStages a.around settings a.overrides.stages = .ok stages
    ∧ context = ⟨a.project.effective (a.around.tree.absolute place) settings, settings,
      a.around.tree, a.around.now⟩

end Analysis

/-- The deltas that stages returned on the snapshots they were handed, in order. -/
def returnedDeltas (context : StageContext) (stages : List Stage) (invoked : List (String × Value)) :
    List Entries :=
  (stages.zip invoked).filterMap fun (stage, _, snapshot) =>
    (stage.run context snapshot).result.delta?

def outsideRecord (report : Entries) : Entries := report.filter fun (key, _) => key != recordKey

namespace Analysis

variable {a : Analysis} {context : StageContext} {stages : List Stage} {opened : Session}

theorem ComesTo.run_eq (begins : a.ComesTo context stages opened) :
    a.run = ⟨(runPipeline context a.around.analyzedAt stages opened).1.journal,
      (runPipeline context a.around.analyzedAt stages opened).2⟩ := by
  obtain ⟨place, settings, root, chosen, ordered, rfl⟩ := begins
  simp only [run, analyze, root, chosen, ordered]

theorem exists_comesTo_of_ok {report : Entries} (returned : a.run.result = .ok report) :
    ∃ context stages opened, a.ComesTo context stages opened := by
  cases root : checkRoot a.around a.project.rootPath with
  | error fault => simp [run, analyze, root] at returned
  | ok place =>
    cases chosen : chooseSettings a.around place a.overrides.settings a.session with
    | mk after outcome =>
      cases outcome with
      | error fault => simp [run, analyze, root, chosen] at returned
      | ok settings =>
        cases ordered : chooseStages a.around settings a.overrides.stages with
        | error fault => simp [run, analyze, root, chosen, ordered] at returned
        | ok stages => exact ⟨_, stages, after, place, settings, root, chosen, ordered, rfl⟩

/-- Before its first stage an analysis does no more than write to the log. -/
theorem ComesTo.opened_eq (begins : a.ComesTo context stages opened) :
    opened = a.session ∨ ∃ message, opened = a.session.log .warning message := by
  obtain ⟨place, settings, -, chosen, -, -⟩ := begins
  unfold chooseSettings at chosen
  split at chosen
  · cases chosen
    exact .inl rfl
  · split at chosen
    · cases chosen
      exact .inl rfl
    · split at chosen
      · cases chosen
        exact .inr ⟨_, rfl⟩
      · cases chosen

theorem ComesTo.invoked_eq (begins : a.ComesTo context stages opened) : opened.invoked = [] := by
  rcases begins.opened_eq with rfl | ⟨message, rfl⟩
  · rfl
  · exact a.session.invoked_log _ _

theorem ComesTo.steady (begins : a.ComesTo context stages opened) {clock : List Quantity}
    (steady : a.session.Steady clock) : opened.Steady clock := by
  rcases begins.opened_eq with rfl | ⟨message, rfl⟩
  · exact steady
  · exact steady.log _ _

end Analysis

/-! ## One stage -/

def handedTo (stage : Stage) (report : Entries) : Value :=
  (Value.map (restrict report stage.reads)).freeze

def concludeStage (stage : Stage) (started : Quantity) (report : Entries) (result : StageResult)
    (s : Session) : Session × Except RunError Entries :=
  match settle report result with
  | .error e => (s, .error e)
  | .ok (settled, failure) =>
    match Session.elapsedMs started (s.logFailure stage.name failure).readClock.1 with
    | .error fault => ((s.logFailure stage.name failure).readClock.2, .error (.clock fault))
    | .ok duration =>
      ((s.logFailure stage.name failure).readClock.2,
        (appendLayer settled ⟨stage.name, duration, failure.map StageFailure.message⟩).mapError
          .record)

/-- A stage is announced, takes its steps and is concluded, unless a cancellation is noticed before
or on the way. -/
theorem runStage_eq (context : StageContext) (stage : Stage) (index total : Nat) (report : Entries)
    (s : Session) :
    runStage context stage index total report s =
      if s.isCancelled then (s, .error (cancelledDuring stage.name))
      else
        let announced := announceStage stage index total (handedTo stage report) s
        let run := stage.run context (handedTo stage report)
        match announced.2.take stage.name run.steps with
        | (worked, false) => (worked, .error (cancelledDuring stage.name))
        | (worked, true) => concludeStage stage announced.1 report run.result worked :=
  rfl

theorem Session.invoked_take (s : Session) (stage : String) (steps : List Step) :
    (s.take stage steps).1.invoked = s.invoked := by
  induction steps generalizing s with
  | nil => rfl
  | cons step rest inductionHypothesis =>
    cases step with
    | log record =>
      exact (inductionHypothesis _).trans (s.invoked_note_logged record)
    | checkpoint =>
      rw [Session.take]
      split
      · rfl
      · exact inductionHypothesis s
    | report current total detail phase =>
      rw [Session.take]
      split
      · rfl
      · exact (inductionHypothesis _).trans (s.invoked_deliver _)

theorem invoked_announceStage (stage : Stage) (index total : Nat) (snapshot : Value) (s : Session) :
    (announceStage stage index total snapshot s).2.invoked
      = s.invoked ++ [(stage.name, snapshot)] := by
  simp only [announceStage, Session.invoked_note_invoked, Session.invoked_readClock,
    Session.invoked_log, Session.invoked_deliver]

theorem mapError_eq_ok {ε ε' α : Type} {f : ε → ε'} {x : Except ε α} {a : α} :
    x.mapError f = .ok a ↔ x = .ok a := by
  cases x <;> simp [Except.mapError]

theorem concludeStage_eq_ok {stage : Stage} {started : Quantity} {report next : Entries}
    {result : StageResult} {s after : Session}
    (concluded : concludeStage stage started report result s = (after, .ok next)) :
    after.invoked = s.invoked ∧ ∃ settled failure duration,
      settle report result = .ok (settled, failure)
        ∧ appendLayer settled ⟨stage.name, duration, failure.map StageFailure.message⟩
          = .ok next := by
  unfold concludeStage at concluded
  split at concluded
  · cases concluded
  · next settled failure settles =>
    split at concluded
    · cases concluded
    · next duration _ =>
      obtain ⟨rfl, entered⟩ := Prod.mk.inj concluded
      refine ⟨?_, settled, failure, duration, settles, mapError_eq_ok.mp entered⟩
      rw [Session.invoked_readClock, Session.invoked_logFailure]

section

variable {context : StageContext} {stage : Stage} {index total : Nat} {report next : Entries}
  {s after : Session}

/-- A stage that came to an end was invoked on its part of the report, its result was settled, and
its layer was entered. -/
theorem runStage_eq_ok (ran : runStage context stage index total report s = (after, .ok next)) :
    after.invoked = s.invoked ++ [(stage.name, handedTo stage report)]
      ∧ ∃ settled failure duration,
        settle report (stage.run context (handedTo stage report)).result = .ok (settled, failure)
          ∧ appendLayer settled ⟨stage.name, duration, failure.map StageFailure.message⟩
            = .ok next := by
  rw [runStage_eq] at ran
  split at ran
  · cases ran
  · have invokedNow := invoked_announceStage stage index total (handedTo stage report) s
    have invokedWorked := Session.invoked_take
      (announceStage stage index total (handedTo stage report) s).2 stage.name
      (stage.run context (handedTo stage report)).steps
    simp only at ran
    split at ran
    · cases ran
    · next worked taken =>
      obtain ⟨invokedAfter, concluded⟩ := concludeStage_eq_ok ran
      rw [taken] at invokedWorked
      exact ⟨invokedAfter.trans (invokedWorked.trans invokedNow), concluded⟩

end

/-! ## Outside of the record -/

/-- The report has the record of the run in front, and nothing else under its key. -/
def RecordFirst (deltas report : Entries) : Prop :=
  ∃ record, report = (recordKey, .map record) :: deltas

theorem appendLayer_recordFirst {deltas report next : Entries} {layer : LayerRecord}
    (first : RecordFirst deltas report) (entered : appendLayer report layer = .ok next) :
    RecordFirst deltas next := by
  obtain ⟨record, rfl⟩ := first
  simp only [appendLayer, recordEntries, List.lookup_cons, beq_self_eq_true, bind_eq_ok,
    pure_eq_ok, Except.ok.injEq] at entered
  obtain ⟨_, rfl, layers, -, rfl⟩ := entered
  exact ⟨_, Entries.insert_cons_self _ _ _ _⟩

theorem finishRecord_recordFirst {deltas report finished : Entries} {duration : Int}
    {failed : List String} (first : RecordFirst deltas report)
    (entered : finishRecord report duration = .ok (finished, failed)) :
    RecordFirst deltas finished := by
  obtain ⟨record, rfl⟩ := first
  simp only [finishRecord, recordEntries, List.lookup_cons, beq_self_eq_true, bind_eq_ok,
    Except.ok.injEq] at entered
  obtain ⟨_, rfl, layers, -, names, -, outcome⟩ := entered
  split at outcome
  · simp only [pure_eq_ok, Prod.mk.injEq] at outcome
    obtain ⟨rfl, -⟩ := outcome
    exact ⟨_, Entries.insert_cons_self _ _ _ _⟩
  · cases outcome

/-- A mapping that was settled could be merged. -/
theorem ordered_of_settle {report settled delta : Entries} {result : StageResult}
    {failure : Option StageFailure} (settles : settle report result = .ok (settled, failure))
    (returned : result.delta? = some delta) : (Value.map delta).hasOrderedSets = true := by
  cases result with
  | delta entries =>
    obtain rfl : entries = delta := by simpa [StageResult.delta?] using returned
    exact (settle_delta_eq_ok settles).1
  | noDelta | failed _ | refused _ | cancelled _ => cases returned

/-- A result that does not write to the record is merged behind it. -/
theorem settle_recordFirst {deltas report settled : Entries} {result : StageResult}
    {failure : Option StageFailure} (first : RecordFirst deltas report)
    (unwritten : ∀ delta, result.delta? = some delta → recordKey ∉ delta.keys)
    (settles : settle report result = .ok (settled, failure)) :
    RecordFirst (result.delta?.toList.foldl Entries.overlay deltas) settled := by
  obtain ⟨record, rfl⟩ := first
  cases result with
  | delta entries =>
    obtain ⟨-, rfl, -⟩ := settle_delta_eq_ok settles
    exact ⟨record, Entries.overlay_cons_of_unmentioned _ _ (unwritten entries rfl)⟩
  | noDelta | failed _ =>
    simp only [settle, Except.ok.injEq, Prod.mk.injEq] at settles
    obtain ⟨rfl, -⟩ := settles
    exact ⟨record, rfl⟩
  | refused _ | cancelled _ => cases settles

/-! ## All stages -/

theorem returnedDeltas_cons (context : StageContext) (stage : Stage) (stages : List Stage)
    (name : String) (snapshot : Value) (invoked : List (String × Value)) :
    returnedDeltas context (stage :: stages) ((name, snapshot) :: invoked) =
      (stage.run context snapshot).result.delta?.toList ++ returnedDeltas context stages invoked := by
  simp only [returnedDeltas, List.zip_cons_cons, List.filterMap_cons]
  cases (stage.run context snapshot).result.delta? <;> rfl

/-- Stages that came to an end have merged what they returned behind the record. -/
theorem runStages_returned {context : StageContext} {total : Nat} {stages : List Stage} {index : Nat}
    {report final : Entries} {s after : Session}
    (ran : runStages context total stages index report s = (after, .ok final)) :
    ∃ invoked, after.invoked = s.invoked ++ invoked
      ∧ (∀ delta ∈ returnedDeltas context stages invoked, (Value.map delta).hasOrderedSets = true)
      ∧ ((∀ delta ∈ returnedDeltas context stages invoked, recordKey ∉ delta.keys) →
        ∀ deltas, RecordFirst deltas report →
          RecordFirst ((returnedDeltas context stages invoked).foldl Entries.overlay deltas) final) := by
  induction stages generalizing index report s with
  | nil =>
    obtain ⟨rfl, same⟩ := Prod.mk.inj ran
    cases same
    exact ⟨[], by simp, by simp [returnedDeltas], fun _ deltas first => first⟩
  | cons stage rest inductionHypothesis =>
    rw [runStages] at ran
    split at ran
    · cases ran
    · next between next ranStage =>
      obtain ⟨invokedNow, settled, failure, duration, settles, entered⟩ := runStage_eq_ok ranStage
      obtain ⟨invoked, invokedRest, orderedRest, folded⟩ := inductionHypothesis ran
      refine ⟨(stage.name, handedTo stage report) :: invoked, ?_, ?_, ?_⟩
      · rw [invokedRest, invokedNow, List.append_assoc, List.singleton_append]
      · intro delta member
        rw [returnedDeltas_cons, List.mem_append, Option.mem_toList] at member
        rcases member with now | later
        · exact ordered_of_settle settles now
        · exact orderedRest delta later
      · intro unwritten deltas first
        rw [returnedDeltas_cons] at unwritten ⊢
        rw [List.foldl_append]
        refine folded (fun delta member => unwritten delta (List.mem_append_right _ member)) _ ?_
        refine appendLayer_recordFirst (settle_recordFirst first ?_ settles) entered
        intro delta returned
        exact unwritten delta (List.mem_append_left _ (by simp [returned]))

theorem keys_foldl_overlay {deltas : List Entries} {base : Entries} {key : String}
    (unmentioned : ∀ delta ∈ deltas, key ∉ delta.keys) (fresh : key ∉ base.keys) :
    key ∉ (deltas.foldl Entries.overlay base).keys := by
  induction deltas generalizing base with
  | nil => exact fresh
  | cons delta rest inductionHypothesis =>
    refine inductionHypothesis (fun later member => unmentioned later (by simp [member])) ?_
    intro member
    rcases Entries.mem_keys_overlay member with inBase | inDelta
    · exact fresh inBase
    · exact unmentioned delta (by simp) inDelta

/-! ## The report -/

/-- The session in which the first stage is run, and the time at which it starts. -/
def beginRun (context : StageContext) (stages : List Stage) (s : Session) : Quantity × Session :=
  (s.log .info ("Starting analysis of " ++ context.project.rootPath ++ " ("
    ++ toString stages.length ++ " stages)")).readClock

theorem runPipeline_eq (context : StageContext) (analyzedAt : String) (stages : List Stage)
    (s : Session) :
    runPipeline context analyzedAt stages s =
      match runStages context stages.length stages 1
        (initialReport context.project.displayName context.project.rootPath analyzedAt)
        (beginRun context stages s).2 with
      | (worked, .error e) => (worked, .error e)
      | (worked, .ok merged) => finishRun (beginRun context stages s).1 merged worked :=
  rfl

theorem invoked_beginRun (context : StageContext) (stages : List Stage) (s : Session) :
    (beginRun context stages s).2.invoked = s.invoked := by
  rw [beginRun, Session.invoked_readClock, Session.invoked_log]

/-- The report of a run before it is published: what the stages leave of the initial report, with the
duration of the run in its record. -/
def LeftByStages (context : StageContext) (analyzedAt : String) (stages : List Stage)
    (opened : Session) (state : Entries) : Prop :=
  ∃ worked merged duration failed,
    runStages context stages.length stages 1
        (initialReport context.project.displayName context.project.rootPath analyzedAt)
        (beginRun context stages opened).2 = (worked, .ok merged)
      ∧ finishRecord merged duration = .ok (state, failed)

theorem finishRun_eq_ok {started : Quantity} {merged report : Entries} {s after : Session}
    (finished : finishRun started merged s = (after, .ok report)) :
    after.invoked = s.invoked ∧ ∃ duration state failed,
      finishRecord merged duration = .ok (state, failed) ∧ report = Value.publishEntries state := by
  simp only [finishRun] at finished
  split at finished
  · cases finished
  · next duration _ =>
    split at finished
    · cases finished
    · next state failed entered =>
      obtain ⟨rfl, published⟩ := Prod.mk.inj finished
      refine ⟨?_, duration, state, failed, entered, (Except.ok.inj published).symm⟩
      split <;> rw [Session.invoked_log, Session.invoked_readClock]

section

variable {context : StageContext} {analyzedAt : String} {stages : List Stage} {opened : Session}
  {report : Entries}

/-- A run that returned a report has published what its stages left. -/
theorem runPipeline_eq_ok (ran : (runPipeline context analyzedAt stages opened).2 = .ok report) :
    ∃ state, LeftByStages context analyzedAt stages opened state
      ∧ report = Value.publishEntries state := by
  rw [runPipeline_eq] at ran
  split at ran
  · cases ran
  · next worked merged ranStages =>
    obtain ⟨-, duration, state, failed, entered, published⟩ := finishRun_eq_ok (Prod.ext rfl ran)
    exact ⟨state, ⟨worked, merged, duration, failed, ranStages, entered⟩, published⟩

/-- Deltas are merged before publishing as they are after. -/
theorem foldlM_merge_publishEntries {deltas : List Entries} {base merged : Entries}
    (sets : ∀ delta ∈ deltas, (Value.map delta).hasScalarSets = true)
    (merges : deltas.foldlM Entries.merge base = .ok merged) :
    (deltas.map Value.publishEntries).foldlM Entries.merge (Value.publishEntries base)
      = .ok (Value.publishEntries merged) := by
  induction deltas generalizing base with
  | nil =>
    cases merges
    rfl
  | cons delta rest inductionHypothesis =>
    rw [List.forall_mem_cons] at sets
    rw [List.foldlM_cons, bind_eq_ok] at merges
    obtain ⟨next, mergesNow, mergesRest⟩ := merges
    rw [List.map_cons, List.foldlM_cons, Value.merge_publishEntries sets.1 mergesNow]
    exact inductionHypothesis sets.2 mergesRest

theorem mem_keys_publishEntries {entries : Entries} {key : String}
    (member : key ∈ (Value.publishEntries entries).keys) : key ∈ entries.keys := by
  induction entries with
  | nil => exact member
  | cons entry rest inductionHypothesis =>
    obtain ⟨name, value⟩ := entry
    rw [Value.publishEntries] at member
    split at member
    · exact List.mem_cons_of_mem _ (inductionHypothesis member)
    · rcases List.mem_cons.mp member with same | later
      · exact List.mem_cons.mpr (.inl same)
      · exact List.mem_cons_of_mem _ (inductionHypothesis later)

theorem outsideRecord_publishEntries {deltas state : Entries} (first : RecordFirst deltas state)
    (elsewhere : recordKey ∉ deltas.keys) :
    outsideRecord (Value.publishEntries state) = Value.publishEntries deltas := by
  obtain ⟨record, rfl⟩ := first
  have shown : isInternalKey recordKey = false := by decide
  simp only [Value.publishEntries, shown, Bool.false_eq_true, ↓reduceIte, outsideRecord,
    List.filter_cons, bne_self_eq_false, List.filter_eq_self]
  rintro ⟨key, value⟩ member
  have different : key ≠ recordKey := by
    rintro rfl
    exact elsewhere (mem_keys_publishEntries (List.mem_map_of_mem member))
  simpa using different

/-- Outside of its record, the report of a run is what the published deltas merge to. -/
theorem outsideRecord_returned
    (ran : (runPipeline context analyzedAt stages opened).2 = .ok report) (fresh : opened.invoked = [])
    {deltas : List Entries}
    (areReturned : deltas = returnedDeltas context stages
      (invocations (runPipeline context analyzedAt stages opened).1.journal))
    (unwritten : ∀ delta ∈ deltas, recordKey ∉ delta.keys)
    (sets : ∀ delta ∈ deltas, (Value.map delta).hasScalarSets = true) :
    (deltas.map Value.publishEntries).foldlM Entries.merge [] = .ok (outsideRecord report) := by
  rw [runPipeline_eq] at ran areReturned
  split at ran
  · cases ran
  · next worked merged ranStages =>
    simp only [ranStages] at areReturned
    obtain ⟨sameInvoked, duration, state, failed, entered, rfl⟩ :=
      finishRun_eq_ok (Prod.ext rfl ran)
    obtain ⟨invoked, invokedBy, ordered, folded⟩ := runStages_returned ranStages
    have allInvoked : invocations (finishRun (beginRun context stages opened).1 merged worked).1.journal
        = invoked := by
      show Session.invoked _ = invoked
      rw [sameInvoked, invokedBy, invoked_beginRun, fresh, List.nil_append]
    rw [allInvoked] at areReturned
    subst areReturned
    have first := finishRecord_recordFirst (folded unwritten [] ⟨_, rfl⟩) entered
    rw [outsideRecord_publishEntries first (keys_foldl_overlay unwritten (by simp))]
    exact foldlM_merge_publishEntries sets (Entries.foldlM_merge_of_ordered ordered [])

end

theorem checkRoot_besideSettings : checkRoot (besideSettings ⟨#[]⟩) "/srv/app" = .ok ["app"] := by
  have found : ((besideSettings ⟨#[]⟩).tree.names? [] "/srv/app").bind
      (besideSettings ⟨#[]⟩).tree.find? = some
        (["app"], .directory [(settingsFileName, .file ⟨#[]⟩ 0)]) := by rfl
  exact checkRoot_directory (by decide) (by rfl) found

end Surveyor
