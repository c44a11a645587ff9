import Surveyor.Proofs.Pipeline.Layers
import Surveyor.Proofs.Pipeline.Obedience
import Surveyor.Proofs.Value.Publish

/-! # What stages can do to the record of a run

The record stands in the report like everything else, and what a stage returns under its key is merged
into it. A stage can so replace the list of layers, or the whole record, by something that is no list
and no mapping: then the run ends when the layer of that very stage is to be entered. It can also put
into the list what is no layer: then the run ends when the failed stages are counted. Nothing else
damages the record (`record_survives_unless_overwritten`), and what no stage writes stays as the run has
entered it.

The induction is over the stages still to run. Its invariant is `Recorded`: the list of layers is what
was last put in its place, followed by the layers entered since then.
-/

namespace Surveyor

namespace StageResult

def recordPart? (result : StageResult) : Option Value := result.delta?.bind (List.lookup recordKey)

def recordField? (result : StageResult) (field : String) : Option Value :=
  result.recordPart?.bind fun part => part.get? field

/-- What a stage has put in the place of the list of layers. -/
def newLayers? (result : StageResult) : Option (List Value) :=
  match (result.recordField? layersKey).map Value.plainForm with
  | some (.list layers) => some layers
  | _ => none

/-- What the stage returned can be merged, and the record is then still a mapping, with a list of
layers. -/
structure KeepsRecord (result : StageResult) : Prop where
  merges : result.Merges
  intact : ∀ part, result.recordPart? = some part → part.isMap = true
    ∧ ∀ layers, part.get? layersKey = some layers → ∃ items, layers.plainForm = .list items

/-- Mappings have each key once: the delta, and what it has for the record. -/
def HasDistinctKeys (result : StageResult) : Prop :=
  ∀ delta, result.delta? = some delta → delta.keys.Nodup
    ∧ ∀ part, delta.lookup recordKey = some part → part.entries.keys.Nodup

end StageResult

/-- A layer from which it can be told whether the stage failed, and which one did. -/
def IsLayer (v : Value) : Prop :=
  ∃ layer status, v = .map layer ∧ layer.lookup "status" = some status
    ∧ (status = .str "failed" → ∃ name, layer.lookup "name" = some (.str name))

/-- The list of layers after some stages: each may have replaced it before its own layer was entered. -/
def recordedLayers (outcomes : List StageOutcome) : List Value :=
  outcomes.foldl (fun layers o => o.result.newLayers?.getD layers ++ [o.entry]) []

/-- The fields of the record that the run enters by itself before the first stage. -/
def enteredFields (context : StageContext) (analyzedAt : String) : Entries :=
  [("project_name", context.project.displayName), ("root_path", .str context.project.rootPath),
    ("analyzed_at", .str analyzedAt), ("version", .str reportVersion)]

structure Recorded (context : StageContext) (analyzedAt : String) (outcomes : List StageOutcome)
    (report : Entries) (record : Entries) : Prop where
  isRecord : report.lookup recordKey = some (.map record)
  layers : record.lookup layersKey = some (.list (recordedLayers outcomes))
  unwritten : ∀ field value, (field, value) ∈ enteredFields context analyzedAt →
    (∀ o ∈ outcomes, o.result.recordField? field = none) → record.lookup field = some value

/-- The stages that were invoked, in order, with what each returned on the snapshot it was handed. As
long as the record is kept, the next one is invoked. -/
structure RanAs (context : StageContext) (stages : List Stage) (outcomes : List StageOutcome)
    (invoked : List (String × Value)) : Prop where
  isPrefix : outcomes.map (·.stage) <+: stages
  goesOn : (∀ o ∈ outcomes, o.result.KeepsRecord) → outcomes.map (·.stage) = stages
  fromSnapshots : List.Forall₂ (fun o (call : String × Value) =>
    call.1 = o.stage.name ∧ o.result = (o.stage.run context call.2).result) outcomes invoked

/-- Every stage has kept the record, and its list has layers only. -/
structure RecordSurvives (outcomes : List StageOutcome) : Prop where
  kept : ∀ o ∈ outcomes, o.result.KeepsRecord
  areLayers : ∀ layer ∈ recordedLayers outcomes, IsLayer layer

@[simp]
theorem recordedLayers_append (done : List StageOutcome) (outcome : StageOutcome) :
    recordedLayers (done ++ [outcome])
      = outcome.result.newLayers?.getD (recordedLayers done) ++ [outcome.entry] := by
  simp [recordedLayers]

/-! ## One stage -/

theorem overlayInto_of_not_isMap {present : Value} (notMap : present.isMap = false) (value : Value) :
    Value.overlayInto (some present) value = value.plainForm := by
  cases value with
  | map entries | view entries =>
    cases present with
    | map _ | view _ => cases notMap
    | _ => rfl
  | _ => rfl

theorem overlayInto_of_isMap (record : Entries) {part : Value} (isMap : part.isMap = true) :
    Value.overlayInto (some (.map record)) part = .map (record.overlay part.entries) := by
  cases part with
  | map entries | view entries => rfl
  | _ => cases isMap

theorem get?_eq_lookup (part : Value) (field : String) :
    part.get? field = part.entries.lookup field := by
  cases part <;> rfl

theorem plainForm_not_map {part : Value} (notMap : part.isMap = false) (record : Entries) :
    part.plainForm ≠ .map record := by
  cases part with
  | map _ | view _ => cases notMap
  | _ => simp [Value.plainForm]

section

variable {context : StageContext} {analyzedAt : String} {done : List StageOutcome}
  {report record settled : Entries} {outcome : StageOutcome} {failure : Option StageFailure}

/-- What stands under the key of the record when a stage has been settled. -/
theorem lookup_settled (isRecord : report.lookup recordKey = some (.map record))
    {result : StageResult} (distinct : result.HasDistinctKeys)
    (settles : settle report result = .ok (settled, failure)) :
    settled.lookup recordKey = match result.recordPart? with
      | some part => some (Value.overlayInto (some (.map record)) part)
      | none => some (.map record) := by
  cases result with
  | delta entries =>
    obtain ⟨-, rfl, -⟩ := settle_delta_eq_ok settles
    rw [Entries.lookup_overlay recordKey report (distinct entries rfl).1, isRecord]
    rfl
  | noDelta | failed _ =>
    simp only [settle, Except.ok.injEq, Prod.mk.injEq] at settles
    obtain ⟨rfl, -⟩ := settles
    exact isRecord
  | refused _ | cancelled _ => cases settles

/-- A part of a delta that keeps the record is merged into it, field by field. -/
theorem lookup_recordPart {result : StageResult} (distinct : result.HasDistinctKeys) {part : Value}
    (returned : result.recordPart? = some part) (record : Entries) (field : String) :
    (record.overlay part.entries).lookup field = match result.recordField? field with
      | some value => some (Value.overlayInto (record.lookup field) value)
      | none => record.lookup field := by
  obtain ⟨delta, isDelta, hasPart⟩ := Option.bind_eq_some_iff.mp returned
  have written : result.recordField? field = part.entries.lookup field := by
    rw [StageResult.recordField?, returned, Option.bind_some, get?_eq_lookup]
  rw [written]
  exact Entries.lookup_overlay field record ((distinct delta isDelta).2 part hasPart)

/-- A stage that keeps the record may replace the list of layers, and changes only what it writes. -/
theorem Recorded.settle_of_keeps (recorded : Recorded context analyzedAt done report record)
    (distinct : outcome.result.HasDistinctKeys) (keeps : outcome.result.KeepsRecord)
    (settles : settle report outcome.result = .ok (settled, failure)) :
    ∃ next, settled.lookup recordKey = some (.map next)
      ∧ next.lookup layersKey = some (.list (outcome.result.newLayers?.getD (recordedLayers done)))
      ∧ ∀ field, outcome.result.recordField? field = none → next.lookup field = record.lookup field := by
  have present := lookup_settled recorded.isRecord distinct settles
  cases returned : outcome.result.recordPart? with
  | none =>
    rw [returned] at present
    refine ⟨record, present, ?_, fun _ _ => rfl⟩
    simpa [StageResult.newLayers?, StageResult.recordField?, returned] using recorded.layers
  | some part =>
    obtain ⟨isMap, hasList⟩ := keeps.intact part returned
    rw [returned] at present
    simp only [overlayInto_of_isMap record isMap] at present
    refine ⟨_, present, ?_, ?_⟩
    · rw [lookup_recordPart distinct returned]
      have written : outcome.result.recordField? layersKey = part.get? layersKey := by
        rw [StageResult.recordField?, returned, Option.bind_some]
      -- A list that the stage writes takes the place of the one so far.
      cases layers : part.get? layersKey with
      | none => simpa [StageResult.newLayers?, written, layers] using recorded.layers
      | some value =>
        obtain ⟨items, thawed⟩ := hasList value layers
        simp only [written, layers, recorded.layers, StageResult.newLayers?, Option.map_some, thawed,
          Option.getD_some]
        rw [overlayInto_of_not_isMap rfl, thawed]
    · intro field unwritten
      rw [lookup_recordPart distinct returned, unwritten]

/-- After a stage that does not keep the record no layer can be entered. -/
theorem Recorded.appendLayer_of_not_keeps (recorded : Recorded context analyzedAt done report record)
    (distinct : outcome.result.HasDistinctKeys) (notKept : ¬ outcome.result.KeepsRecord)
    (settles : settle report outcome.result = .ok (settled, failure)) (layer : LayerRecord) :
    ∃ fault, appendLayer settled layer = .error fault := by
  have present := lookup_settled recorded.isRecord distinct settles
  -- It was merged, so what is wrong is the record.
  have notIntact := mt (StageResult.KeepsRecord.mk fun _ => ordered_of_settle settles) notKept
  simp only [not_forall] at notIntact
  obtain ⟨part, returned, broken⟩ := notIntact
  rw [returned] at present
  cases isMap : part.isMap with
  | false =>
    -- What replaces the record is no mapping.
    have thawed : Value.overlayInto (some (.map record)) part = part.plainForm := by
      cases part with
      | map _ | view _ => cases isMap
      | _ => rfl
    have noRecord : ∃ fault, recordEntries settled = .error fault := by
      simp only [recordEntries, present, thawed]
      split
      · next found same => exact absurd (Option.some.inj same) (plainForm_not_map isMap found)
      · exact ⟨_, rfl⟩
      · exact ⟨_, rfl⟩
    obtain ⟨fault, noRecord⟩ := noRecord
    exact ⟨fault, by simp [appendLayer, noRecord, bind, Except.bind]⟩
  | true =>
    -- It is one, and the list of layers has been replaced by what is no list.
    simp only [isMap, true_and, not_forall, not_exists] at broken
    obtain ⟨layers, written, noList⟩ := broken
    simp only [overlayInto_of_isMap record isMap] at present
    have field : outcome.result.recordField? layersKey = some layers := by
      rw [StageResult.recordField?, returned, Option.bind_some, written]
    have replaced : (record.overlay part.entries).lookup layersKey = some layers.plainForm := by
      rw [lookup_recordPart distinct returned, field, recorded.layers]
      exact congrArg some (overlayInto_of_not_isMap rfl layers)
    have noLayers : ∃ fault, recordLayers (record.overlay part.entries) = .error fault := by
      simp only [recordLayers, replaced]
      exact ⟨_, rfl⟩
    obtain ⟨fault, noLayers⟩ := noLayers
    exact ⟨fault, by simp [appendLayer, recordEntries, present, noLayers, bind, Except.bind]⟩

/-- After a stage that keeps the record, its layer is entered behind those that are there. -/
theorem Recorded.exists_appendLayer (recorded : Recorded context analyzedAt done report record)
    (distinct : outcome.result.HasDistinctKeys) (keeps : outcome.result.KeepsRecord)
    (settles : settle report outcome.result = .ok (settled, failure)) {layer : LayerRecord}
    (isEntry : layer.toValue = outcome.entry) :
    ∃ next record, appendLayer settled layer = .ok next
      ∧ Recorded context analyzedAt (done ++ [outcome]) next record := by
  obtain ⟨kept, isRecord, isList, unchanged⟩ := recorded.settle_of_keeps distinct keeps settles
  let layers := outcome.result.newLayers?.getD (recordedLayers done) ++ [outcome.entry]
  refine ⟨settled.insert recordKey (.map (Entries.insert layersKey (.list layers) kept)),
    Entries.insert layersKey (.list layers) kept, ?_, ?_, ?_, ?_⟩
  · simp only [appendLayer, recordEntries, isRecord, recordLayers, isList, bind, Except.bind, pure,
      Except.pure, isEntry, layers]
  · simp [Entries.lookup_insert]
  · simp [Entries.lookup_insert, layers]
  · intro field value isField unwritten
    have ownField : field ≠ layersKey := by
      rintro rfl
      simp [enteredFields, layersKey] at isField
    rw [Entries.lookup_insert, if_neg ownField, unchanged field (unwritten outcome (by simp))]
    exact recorded.unwritten field value isField fun o member => unwritten o (by simp [member])

theorem recorded_initialReport (context : StageContext) (analyzedAt : String) :
    ∃ record, Recorded context analyzedAt []
      (initialReport context.project.displayName context.project.rootPath analyzedAt) record := by
  refine ⟨_, rfl, rfl, ?_⟩
  intro field value isField _
  simp only [enteredFields, List.mem_cons, Prod.mk.injEq, List.not_mem_nil, or_false] at isField
  rcases isField with ⟨rfl, rfl⟩ | ⟨rfl, rfl⟩ | ⟨rfl, rfl⟩ | ⟨rfl, rfl⟩ <;> rfl

end

/-! ## All stages -/

section

variable {context : StageContext} {analyzedAt : String} {stages : List Stage} {s : Session}
  {clock : List Quantity} (tells : Session.TellsTime clock)

include tells

/-- A stage that is run on a record keeps it, or the run ends with its layer. -/
theorem runStage_recorded {stage : Stage} (total index : Nat) {done : List StageOutcome}
    {report record : Entries} (recorded : Recorded context analyzedAt done report record)
    (steady : s.Steady clock)
    (goesOn : ∀ snapshot, (stage.run context snapshot).result.GoesOn)
    (distinct : ∀ snapshot, (stage.run context snapshot).result.HasDistinctKeys) :
    ∃ (after : Session) (outcome : StageOutcome) (snapshot : Value), after.Steady clock
      ∧ after.invoked = s.invoked ++ [(stage.name, snapshot)]
      ∧ outcome.stage = stage ∧ outcome.result = (stage.run context snapshot).result
      ∧ ((outcome.result.KeepsRecord ∧ ∃ next record,
          runStage context stage index total report s = (after, .ok next)
            ∧ Recorded context analyzedAt (done ++ [outcome]) next record)
        ∨ (¬ outcome.result.KeepsRecord ∧ ∃ fault,
          runStage context stage index total report s = (after, .error (.record fault)))) := by
  obtain ⟨started, announced, announces, startedKnown, steadyAnnounced, invokedNow⟩ :=
    steady.announceStage stage index total (handedTo stage report)
  obtain ⟨worked, takes, steadyWorked, invokedWorked⟩ := steadyAnnounced.take stage.name
    (stage.run context (handedTo stage report)).steps
  have concludes : runStage context stage index total report s = concludeStage stage started report
      (stage.run context (handedTo stage report)).result worked := by
    simp only [runStage_eq, steady.notCancelled, Bool.false_eq_true, ↓reduceIte, announces, takes]
  -- Of the stage only its result matters from here on.
  have goesOn := goesOn (handedTo stage report)
  have distinct := distinct (handedTo stage report)
  generalize returned : (stage.run context (handedTo stage report)).result = result
    at concludes goesOn distinct
  rcases goesOn.settle report with ⟨-, ⟨settled, failure⟩, settles⟩ | ⟨unmerged, fault, failed⟩
  case inr =>
    refine ⟨worked, ⟨stage, result, 0⟩, handedTo stage report, steadyWorked, ?_, rfl, returned.symm,
      .inr ⟨fun keeps => unmerged keeps.merges, fault, ?_⟩⟩
    · rw [invokedWorked, invokedNow]
    · rw [concludes, concludeStage, failed]
  have logged := steadyWorked.logFailure stage.name failure
  obtain ⟨duration, elapsed⟩ := tells started startedKnown _ logged.reading_mem
  let outcome : StageOutcome := ⟨stage, result, duration⟩
  let layer : LayerRecord := ⟨stage.name, duration, failure.map StageFailure.message⟩
  have distinctHere : outcome.result.HasDistinctKeys := distinct
  have settlesHere : settle report outcome.result = .ok (settled, failure) := settles
  have isEntry : layer.toValue = outcome.entry := by
    have sameFailure : failure = result.failure? := by
      cases result with
      | delta _ => exact (settle_delta_eq_ok settles).2.2
      | noDelta | failed _ =>
        simp only [settle, Except.ok.injEq, Prod.mk.injEq] at settles
        rw [← settles.2]
        rfl
      | refused _ | cancelled _ => cases settles
    rw [entry_eq_toValue, ← sameFailure]
  refine ⟨(worked.logFailure stage.name failure).readClock.2, outcome, handedTo stage report,
    logged.readClock, ?_, rfl, returned.symm, ?_⟩
  · rw [Session.invoked_readClock, Session.invoked_logFailure, invokedWorked, invokedNow]
  · rw [concludes]
    by_cases keeps : outcome.result.KeepsRecord
    · obtain ⟨next, record, entered, recordedNext⟩ :=
        recorded.exists_appendLayer distinctHere keeps settlesHere isEntry
      refine .inl ⟨keeps, next, record, ?_, recordedNext⟩
      simp only [concludeStage, settles, elapsed]
      rw [show appendLayer settled _ = .ok next from entered]
      rfl
    · obtain ⟨fault, refused⟩ :=
        recorded.appendLayer_of_not_keeps distinctHere keeps settlesHere layer
      refine .inr ⟨keeps, fault, ?_⟩
      simp only [concludeStage, settles, elapsed]
      rw [show appendLayer settled _ = .error fault from refused]
      rfl

/-- Stages run one after the other, up to the first that does not keep the record. -/
theorem runStages_recorded (total index : Nat) {done : List StageOutcome} {report record : Entries}
    (recorded : Recorded context analyzedAt done report record) (steady : s.Steady clock)
    (goesOn : ∀ stage ∈ stages, ∀ snapshot, (stage.run context snapshot).result.GoesOn)
    (distinct : ∀ stage ∈ stages, ∀ snapshot,
      (stage.run context snapshot).result.HasDistinctKeys) :
    ∃ after outcomes invoked, after.Steady clock ∧ after.invoked = s.invoked ++ invoked
      ∧ RanAs context stages outcomes invoked
      ∧ (((∀ o ∈ outcomes, o.result.KeepsRecord)
          ∧ ∃ final record, runStages context total stages index report s = (after, .ok final)
            ∧ Recorded context analyzedAt (done ++ outcomes) final record)
        ∨ ((∃ o ∈ outcomes, ¬ o.result.KeepsRecord) ∧ ∃ fault,
          runStages context total stages index report s = (after, .error (.record fault)))) := by
  induction stages generalizing s index done report record with
  | nil =>
    refine ⟨s, [], [], steady, by simp, ⟨by simp, fun _ => rfl, .nil⟩,
      .inl ⟨by simp, report, record, rfl, ?_⟩⟩
    simpa using recorded
  | cons stage rest inductionHypothesis =>
    obtain ⟨between, outcome, snapshot, steadyBetween, invokedNow, isStage, returned, ends⟩ :=
      runStage_recorded tells total index recorded steady (goesOn stage (by simp))
        (distinct stage (by simp))
    have call : (stage.name, snapshot).1 = outcome.stage.name
        ∧ outcome.result = (outcome.stage.run context snapshot).result := by
      rw [isStage]
      exact ⟨rfl, returned⟩
    rw [runStages]
    rcases ends with ⟨keeps, next, record, ran, recordedNext⟩ | ⟨notKept, fault, ran⟩
    · obtain ⟨after, outcomes, invoked, steadyAfter, invokedRest, ranAs, endsRest⟩ :=
        inductionHypothesis (index + 1) recordedNext steadyBetween
          (fun later member => goesOn later (by simp [member]))
          fun later member => distinct later (by simp [member])
      refine ⟨after, outcome :: outcomes, (stage.name, snapshot) :: invoked, steadyAfter, ?_, ⟨?_, ?_,
        .cons call ranAs.fromSnapshots⟩, ?_⟩
      · rw [invokedRest, invokedNow, List.append_assoc, List.singleton_append]
      · rw [List.map_cons, isStage]
        exact (List.prefix_cons_inj stage).mpr ranAs.isPrefix
      · intro allKeep
        rw [List.map_cons, isStage, ranAs.goesOn fun o member => allKeep o (by simp [member])]
      · simp only [ran]
        rw [List.append_assoc, List.singleton_append] at endsRest
        rcases endsRest with ⟨allKeep, final⟩ | ⟨⟨broken, member, notKept⟩, damaged⟩
        · refine .inl ⟨?_, final⟩
          simpa using ⟨keeps, allKeep⟩
        · exact .inr ⟨⟨broken, by simp [member], notKept⟩, damaged⟩
    · -- The layer of this stage cannot be entered, and no other stage is invoked.
      refine ⟨between, [outcome], [(stage.name, snapshot)], steadyBetween, invokedNow,
        ⟨?_, fun allKeep => absurd (allKeep outcome (by simp)) notKept, .cons call .nil⟩,
        .inr ⟨⟨outcome, by simp, notKept⟩, fault, ?_⟩⟩
      · simp [isStage]
      · simp only [ran]

end

/-! ## The end of a run -/

theorem isLayer_map {layer : Entries} :
    IsLayer (.map layer) ↔ ∃ status, layer.lookup "status" = some status
      ∧ (status = .str "failed" → ∃ name, layer.lookup "name" = some (.str name)) := by
  constructor
  · rintro ⟨_, status, ⟨⟩, told⟩
    exact ⟨status, told⟩
  · rintro ⟨status, told⟩
    exact ⟨layer, status, rfl, told⟩

/-- The failed stages can be named exactly if the list has layers only. -/
theorem failedNames_iff (layers : List Value) :
    (∃ names, failedNames layers = .ok names ∧ names.all (·.str?.isSome) = true)
      ↔ ∀ layer ∈ layers, IsLayer layer := by
  induction layers with
  | nil => simp [failedNames]
  | cons layer rest inductionHypothesis =>
    rw [List.forall_mem_cons, ← inductionHypothesis]
    cases layer with
    | map layer =>
      rw [isLayer_map]
      cases status : layer.lookup "status" with
      | none => simp [failedNames, status]
      | some value =>
        by_cases failed : value = .str "failed"
        · subst failed
          cases isName : layer.lookup "name" with
          | none => simp [failedNames, status, isName]
          | some name =>
            -- The name of a failed stage is one of the names, so it has to be a string.
            have isNamed : (∃ text, name = .str text) ↔ name.str?.isSome = true := by
              cases name <;> simp [Value.str?]
            simp only [failedNames, status, isName, bind_eq_ok, pure_eq_ok, Option.some.injEq,
              exists_eq_left', forall_const, isNamed]
            constructor
            · rintro ⟨_, ⟨names, found, rfl⟩, allNamed⟩
              rw [List.all_cons, Bool.and_eq_true] at allNamed
              exact ⟨allNamed.1, names, found, allNamed.2⟩
            · rintro ⟨isNamed, names, found, allNamed⟩
              exact ⟨name :: names, ⟨names, found, rfl⟩, by simp [isNamed, allNamed]⟩
        · have others : failedNames (.map layer :: rest) = failedNames rest := by
            rw [failedNames]
            split
            all_goals simp_all
          simp [others, failed]
    | _ => simp [failedNames, IsLayer]

section

variable {context : StageContext} {analyzedAt : String} {stages : List Stage}
  {outcomes : List StageOutcome} {report record : Entries}

/-- The record can be finished exactly if its list has layers only. -/
theorem Recorded.finishRecord_cases (recorded : Recorded context analyzedAt outcomes report record)
    (duration : Int) :
    ((∀ layer ∈ recordedLayers outcomes, IsLayer layer) ∧ ∃ names, finishRecord report duration = .ok
        (report.insert recordKey (.map (Entries.insert "duration_ms" (.int duration) record)), names))
      ∨ ((∃ layer ∈ recordedLayers outcomes, ¬ IsLayer layer)
        ∧ ∃ fault, finishRecord report duration = .error fault) := by
  have finishes : finishRecord report duration = (do
      let failed ← failedNames (recordedLayers outcomes)
      if failed.all (·.str?.isSome) then
        return (report.insert recordKey (.map (Entries.insert "duration_ms" (.int duration) record)),
          failed.map (·.asStr))
      else .error .wrongKind) := by
    simp only [finishRecord, recordEntries, recorded.isRecord, recordLayers, recorded.layers, bind,
      Except.bind]
  by_cases areLayers : ∀ layer ∈ recordedLayers outcomes, IsLayer layer
  · obtain ⟨names, named, allNamed⟩ := (failedNames_iff _).mpr areLayers
    refine .inl ⟨areLayers, names.map (·.asStr), ?_⟩
    simp [finishes, named, allNamed, bind, Except.bind, pure, Except.pure]
  · refine .inr ⟨by simpa using areLayers, ?_⟩
    rw [finishes]
    cases named : failedNames (recordedLayers outcomes) with
    | error fault => exact ⟨fault, rfl⟩
    | ok names =>
      have notAll : names.all (·.str?.isSome) = false := by
        rw [← Bool.not_eq_true]
        intro allNamed
        exact areLayers ((failedNames_iff _).mp ⟨names, named, allNamed⟩)
      exact ⟨.wrongKind, by simp [notAll, bind, Except.bind]⟩

theorem recordedLayers_of_unwritten
    (unwritten : ∀ o ∈ outcomes, o.result.recordField? layersKey = none) :
    recordedLayers outcomes = outcomes.map StageOutcome.entry := by
  induction outcomes using List.reverseRecOn with
  | nil => rfl
  | append_singleton done outcome inductionHypothesis =>
    have none_ : outcome.result.newLayers? = none := by
      simp [StageResult.newLayers?, unwritten outcome (by simp)]
    simp [none_, inductionHypothesis fun o member => unwritten o (by simp [member])]

theorem isLayer_entry (o : StageOutcome) : IsLayer o.entry := by
  unfold StageOutcome.entry
  cases o.result with
  | failed failure => exact ⟨_, _, rfl, rfl, fun _ => ⟨o.stage.name, rfl⟩⟩
  | delta _ | noDelta | refused _ | cancelled _ =>
    exact ⟨_, .str "completed", rfl, rfl, by simp⟩

/-- What a published report shows of its finished record. -/
theorem at?_finished (duration : Int) {field : String} {value : Value} (shown : isInternalKey field = false)
    (different : field ≠ "duration_ms") (present : record.lookup field = some value) :
    (Value.map (Value.publishEntries
        (report.insert recordKey (.map (Entries.insert "duration_ms" (.int duration) record))))).at?
      [.key recordKey, .key field] = some value.publish := by
  have found : (Value.map
      (report.insert recordKey (.map (Entries.insert "duration_ms" (.int duration) record)))).at?
        [.key recordKey, .key field] = some value := by
    simp [Value.at?, Value.turn?, Value.get?, Entries.lookup_insert, different, present]
  have noneInternal : [Value.Turn.key recordKey, .key field].any Value.Turn.isInternal = false := by
    simp [Value.Turn.isInternal, shown, show isInternalKey recordKey = false by decide]
  show (Value.map _).publish.at? _ = _
  rw [Value.at?_publish, noneInternal, found]
  rfl

end

section

variable {context : StageContext} {stages : List Stage} {opened : Session}
  {clock : List Quantity} (tells : Session.TellsTime clock)

include tells

/-- A run that nobody cancels returns a report exactly if its record survives the stages, and shows in
it what became of the record. -/
theorem runPipeline_recorded (analyzedAt : String) (steady : opened.Steady clock)
    (fresh : opened.invoked = [])
    (goesOn : ∀ stage ∈ stages, ∀ snapshot, (stage.run context snapshot).result.GoesOn)
    (distinct : ∀ stage ∈ stages, ∀ snapshot,
      (stage.run context snapshot).result.HasDistinctKeys) :
    ∃ outcomes, RanAs context stages outcomes
        (invocations (runPipeline context analyzedAt stages opened).1.journal)
      ∧ ((RecordSurvives outcomes ∧ ∃ report record duration,
          Recorded context analyzedAt outcomes report record
            ∧ (runPipeline context analyzedAt stages opened).2 = .ok (Value.publishEntries
              (report.insert recordKey
                (.map (Entries.insert "duration_ms" (.int duration) record)))))
        ∨ (¬ RecordSurvives outcomes
          ∧ ∃ fault, (runPipeline context analyzedAt stages opened).2 = .error (.record fault))) := by
  obtain ⟨startedKnown, begun⟩ : (beginRun context stages opened).1 ∈ clock
      ∧ (beginRun context stages opened).2.Steady clock :=
    ⟨(steady.log _ _).reading_mem, (steady.log _ _).readClock⟩
  obtain ⟨record, initial⟩ := recorded_initialReport context analyzedAt
  obtain ⟨worked, outcomes, invoked, steadyWorked, invokedBy, ranAs, ends⟩ :=
    runStages_recorded tells stages.length 1 initial begun goesOn distinct
  rw [invoked_beginRun, fresh, List.nil_append] at invokedBy
  refine ⟨outcomes, ?_⟩
  rw [runPipeline_eq]
  rcases ends with ⟨allKeep, merged, record, ran, recorded⟩
    | ⟨⟨broken, member, notKept⟩, fault, ran⟩
  · rw [List.nil_append] at recorded
    obtain ⟨duration, elapsed⟩ := tells _ startedKnown _ steadyWorked.reading_mem
    have finished : (finishRun (beginRun context stages opened).1 merged worked).1.invoked
        = worked.invoked := (onlyLogs_of_finishRun rfl).invoked
    simp only [ran]
    refine ⟨?_, ?_⟩
    · change RanAs context stages outcomes
        (finishRun (beginRun context stages opened).1 merged worked).1.invoked
      rw [finished, invokedBy]
      exact ranAs
    · -- Every stage kept the record; a layer without a status still stops the run at its end.
      rcases recorded.finishRecord_cases duration with
        ⟨areLayers, names, entered⟩ | ⟨⟨layer, member, noLayer⟩, fault, refused⟩
      · refine .inl ⟨⟨allKeep, areLayers⟩, merged, record, duration, recorded, ?_⟩
        simp only [finishRun, elapsed, entered]
      · refine .inr ⟨fun survives => noLayer (survives.areLayers layer member), fault, ?_⟩
        simp only [finishRun, elapsed, refused]
  · simp only [ran]
    refine ⟨?_, .inr ⟨fun survives => notKept (survives.kept broken member), fault, rfl⟩⟩
    change RanAs context stages outcomes worked.invoked
    rw [invokedBy]
    exact ranAs

end

/-- What the stage returned can be merged, and it writes to the record only what the run does not enter
in it by itself. -/
structure StageResult.SparesRecord (result : StageResult) : Prop where
  merges : result.Merges
  isMap : ∀ part, result.recordPart? = some part → part.isMap = true
  unwritten : ∀ field ∈ ["project_name", "root_path", "analyzed_at", "version", layersKey],
    result.recordField? field = none

theorem StageResult.SparesRecord.keeps {result : StageResult} (spares : result.SparesRecord) :
    result.KeepsRecord := by
  refine ⟨spares.merges, fun part returned => ⟨spares.isMap part returned, fun layers written => ?_⟩⟩
  have untouched := spares.unwritten layersKey (by simp)
  rw [recordField?, returned, Option.bind_some, written] at untouched
  cases untouched

theorem recordSurvives_of_spares {outcomes : List StageOutcome}
    (spare : ∀ o ∈ outcomes, o.result.SparesRecord) : RecordSurvives outcomes where
  kept := fun o member => (spare o member).keeps
  areLayers := by
    rw [recordedLayers_of_unwritten fun o member => (spare o member).unwritten layersKey (by simp)]
    simp [isLayer_entry]

theorem RanAs.exists_snapshot {context : StageContext} {stages : List Stage}
    {outcomes : List StageOutcome} {invoked : List (String × Value)}
    (ranAs : RanAs context stages outcomes invoked) {o : StageOutcome} (member : o ∈ outcomes) :
    o.stage ∈ stages ∧ ∃ snapshot, o.result = (o.stage.run context snapshot).result := by
  refine ⟨ranAs.isPrefix.subset (List.mem_map_of_mem member), ?_⟩
  obtain ⟨k, inRange, rfl⟩ := List.mem_iff_getElem.mp member
  have called := ranAs.fromSnapshots
  rw [List.forall₂_iff_get] at called
  exact ⟨_, (called.2 k inRange (called.1 ▸ inRange)).2⟩

namespace Analysis

/-- An analysis that nobody cancels returns a report exactly if all that stages return can be merged, no
stage has replaced the record by what is no mapping, or its list of layers by what is no list, and nothing
but layers is in the list in the end; otherwise it ends with what could not be entered. The report then
has the layers that were last put in place of the list and those entered since, and every field that no
stage has written is as the run entered it. So where all stages leave these fields and the list alone,
whatever else they return, the record has one layer for each stage in order. -/
theorem record_survives_unless_overwritten {a : Analysis} {context : StageContext}
    {stages : List Stage} {opened : Session} (begins : a.ComesTo context stages opened)
    (notCancelled : a.isCancelled = false)
    (neverCancels : ∀ listener, a.listener = some listener →
      ∀ earlier event, (listener.react earlier event).cancels = false)
    (tells : Session.TellsTime a.session.times)
    (goesOn : ∀ stage ∈ stages, ∀ snapshot, (stage.run context snapshot).result.GoesOn)
    (distinct : ∀ stage ∈ stages, ∀ snapshot,
      (stage.run context snapshot).result.HasDistinctKeys) :
    ∃ outcomes, RanAs context stages outcomes (invocations a.run.journal)
      ∧ ((∃ report, a.run.result = .ok report) ↔ RecordSurvives outcomes)
      ∧ (¬ RecordSurvives outcomes → ∃ fault, a.run.result = .error (.record fault))
      ∧ (∀ report, a.run.result = .ok report →
        (Value.map report).at? [.key recordKey, .key layersKey]
            = some (.list ((recordedLayers outcomes).map Value.publish))
          ∧ ∀ field value, (field, value) ∈ enteredFields context a.around.analyzedAt →
            (∀ o ∈ outcomes, o.result.recordField? field = none) →
            (Value.map report).at? [.key recordKey, .key field] = some value.publish)
      ∧ ((∀ o ∈ outcomes, o.result.SparesRecord) → ∃ report, a.run.result = .ok report
        ∧ outcomes.map (·.stage) = stages
        ∧ (Value.map report).at? [.key recordKey, .key layersKey]
          = some (.list (outcomes.map StageOutcome.entry))
        ∧ ∀ field value, (field, value) ∈ enteredFields context a.around.analyzedAt →
          (Value.map report).at? [.key recordKey, .key field] = some value.publish) := by
  have steady : a.session.Steady a.session.times :=
    ⟨notCancelled, neverCancels, fun _ member => member⟩
  obtain ⟨outcomes, ranAs, ends⟩ := runPipeline_recorded tells a.around.analyzedAt
    (begins.steady steady) begins.invoked_eq goesOn distinct
  have result : a.run.result = (runPipeline context a.around.analyzedAt stages opened).2 := by
    rw [begins.run_eq]
  have shows : ∀ report, a.run.result = .ok report →
      (Value.map report).at? [.key recordKey, .key layersKey]
          = some (.list ((recordedLayers outcomes).map Value.publish))
        ∧ ∀ field value, (field, value) ∈ enteredFields context a.around.analyzedAt →
          (∀ o ∈ outcomes, o.result.recordField? field = none) →
          (Value.map report).at? [.key recordKey, .key field] = some value.publish := by
    intro report returned
    rcases ends with ⟨-, merged, record, duration, recorded, published⟩ | ⟨-, fault, damaged⟩
    · rw [result, published, Except.ok.injEq] at returned
      subst returned
      refine ⟨?_, fun field value isField unwritten => ?_⟩
      · rw [at?_finished duration (by decide) (by decide) recorded.layers, Value.publish,
          Value.publishItems_eq_map]
      · have plainKey : isInternalKey field = false ∧ field ≠ "duration_ms" := by
          simp only [enteredFields, List.mem_cons, Prod.mk.injEq, List.not_mem_nil,
            or_false] at isField
          rcases isField with ⟨rfl, -⟩ | ⟨rfl, -⟩ | ⟨rfl, -⟩ | ⟨rfl, -⟩ <;> decide
        exact at?_finished duration plainKey.1 plainKey.2
          (recorded.unwritten field value isField unwritten)
    · rw [result, damaged] at returned
      cases returned
  refine ⟨outcomes, ?_, ?_, ?_, shows, ?_⟩
  · rw [begins.run_eq]
    exact ranAs
  · rw [result]
    rcases ends with ⟨survives, merged, record, duration, -, published⟩ | ⟨broken, fault, damaged⟩
    · exact ⟨fun _ => survives, fun _ => ⟨_, published⟩⟩
    · refine ⟨?_, fun survives => absurd survives broken⟩
      rintro ⟨report, returned⟩
      rw [damaged] at returned
      cases returned
  · intro broken
    rw [result]
    rcases ends with ⟨survives, -⟩ | ⟨-, damaged⟩
    · exact absurd survives broken
    · exact damaged
  · intro spare
    have survives := recordSurvives_of_spares spare
    obtain ⟨report, returned⟩ : ∃ report, a.run.result = .ok report := by
      rw [result]
      rcases ends with ⟨-, merged, record, duration, -, published⟩ | ⟨broken, -⟩
      · exact ⟨_, published⟩
      · exact absurd survives broken
    obtain ⟨hasLayers, hasFields⟩ := shows report returned
    refine ⟨report, returned, ranAs.goesOn survives.kept, ?_, ?_⟩
    · rw [hasLayers,
        recordedLayers_of_unwritten fun o member => (spare o member).unwritten layersKey (by simp),
        ← Value.publishItems_eq_map, publishItems_entries]
    · intro field value isField
      refine hasFields field value isField fun o member => (spare o member).unwritten field ?_
      simp only [enteredFields, List.mem_cons, Prod.mk.injEq, List.not_mem_nil, or_false] at isField
      rcases isField with ⟨rfl, -⟩ | ⟨rfl, -⟩ | ⟨rfl, -⟩ | ⟨rfl, -⟩ <;> simp

/-- A stage that writes a number in the place of the record ends the run, and one that adds a field of
its own to the record does not. -/
theorem number_damages_record :
    (∃ fault, (returning [(recordKey, .int 5)]).run.result = .error (.record fault))
      ∧ ∃ report, (returning [(recordKey, .map [("note", .int 1)])]).run.result = .ok report
        ∧ (Value.map report).at? [.key recordKey, .key "version"] = some (.str reportVersion) := by
  have tells : ∀ delta, Session.TellsTime (returning delta).session.times := by
    intro delta
    simp only [Session.TellsTime, session, returning, Session.times, Session.start,
      List.isEmpty_cons, Bool.false_eq_true, ↓reduceIte, List.mem_singleton, forall_eq]
    exact ⟨0, rfl⟩
  have goesOn : ∀ (context : StageContext) (delta : Entries),
      ∀ stage ∈ [Stage.ending "alpha" [] (.delta delta)], ∀ snapshot,
        (stage.run context snapshot).result.GoesOn := by
    intro context delta stage member snapshot
    rw [List.mem_singleton.mp member]
    trivial
  have distinct : ∀ (context : StageContext) (part : Value), part.entries.keys.Nodup →
      ∀ stage ∈ [Stage.ending "alpha" [] (.delta [(recordKey, part)])], ∀ snapshot,
        (stage.run context snapshot).result.HasDistinctKeys := by
    intro context part once stage member snapshot delta isDelta
    rw [List.mem_singleton.mp member] at isDelta
    cases isDelta
    refine ⟨by simp, fun found isFound => ?_⟩
    simp only [List.lookup_cons, beq_self_eq_true, Option.some.injEq] at isFound
    rwa [← isFound]
  -- The one stage has returned the one delta, on whatever it was handed.
  have returned : ∀ {context : StageContext} {delta : Entries} {outcomes : List StageOutcome}
      {invoked : List (String × Value)},
      RanAs context [Stage.ending "alpha" [] (.delta delta)] outcomes invoked →
      ∀ o ∈ outcomes, o.result = .delta delta := by
    intro context delta outcomes invoked ranAs o member
    obtain ⟨isStage, snapshot, result⟩ := ranAs.exists_snapshot member
    rw [result, List.mem_singleton.mp isStage]
    rfl
  constructor
  · obtain ⟨context, opened, begins⟩ := returning_comesTo [(recordKey, .int 5)]
    obtain ⟨outcomes, ranAs, -, breaks, -⟩ := record_survives_unless_overwritten begins rfl
      (by simp [returning]) (tells _) (goesOn context _) (distinct context _ (by decide))
    refine breaks fun survives => ?_
    have allRan := ranAs.goesOn survives.kept
    obtain ⟨o, rfl⟩ : ∃ o, outcomes = [o] :=
      List.length_eq_one_iff.mp (by simpa using congrArg List.length allRan)
    have damages := (survives.kept o (by simp)).intact (.int 5) (by
      rw [StageResult.recordPart?, returned ranAs o (by simp)]
      rfl)
    cases damages.1
  · obtain ⟨context, opened, begins⟩ := returning_comesTo [(recordKey, .map [("note", .int 1)])]
    obtain ⟨outcomes, ranAs, -, -, -, spared⟩ := record_survives_unless_overwritten begins rfl
      (by simp [returning]) (tells _) (goesOn context _) (distinct context _ (by decide))
    obtain ⟨report, isReport, -, -, fields⟩ := spared fun o member => by
      rw [returned ranAs o member]
      refine ⟨?_, ?_, by decide⟩
      · rintro _ ⟨⟩
        rfl
      · rintro _ ⟨⟩
        rfl
    exact ⟨report, isReport, fields "version" (.str reportVersion) (by simp [enteredFields])⟩

end Analysis

end Surveyor
