import Surveyor.Proofs.Inspection.ReportedSites
import Surveyor.Proofs.Inspection.Standard
import Surveyor.Proofs.Score.Counting

/-! # Stages that complete

Of the built-in stages, two can be kept from completing, and these by three things only: by a span of
recent days that is longer than spans can be, by a file whose time of change is in no year of the
calendar, and by numbers that are beyond all doubles (`Hindrance`). An analysis reports each executed
stage as failed if something hinders it, and as completed otherwise.
-/

namespace Surveyor

/-! ## Hindrances -/

/-- What can keep a stage from completing. -/
inductive Hindrance where
  /-- A change counts as recent for more days than a span of time can have. -/
  | longSpan
  /-- The survey meets a file that was changed outside of the calendar. -/
  | undated (record : FileRecord)
  /-- There are more findings or files than a double can count. -/
  | uncountable

namespace Hindrance

def stage : Hindrance → String
  | .longSpan | .undated _ => Stage.cataloguing.name
  | .uncountable => Stage.score.name

/-- Does it come up, given the files that were catalogued and the findings on them? -/
def Arises (context : StageContext) (records : List FileRecord) (issues : List Issue) : Hindrance → Prop
  | .longSpan => 999999999 < context.settings.recentDays
  | .undated record => record ∈ Cataloguing.met context ∧ Timestamp.isDated record.time = false
  | .uncountable => ¬ (Scorecard.volumeOf issues records).AreFinite

end Hindrance

def Hinders (context : StageContext) (records : List FileRecord) (issues : List Issue) (name : String) :
    Prop :=
  ∃ hindrance : Hindrance, hindrance.stage = name ∧ hindrance.Arises context records issues

section

variable {context : StageContext} {records : List FileRecord} {issues : List Issue}

theorem hinders_cataloguing_iff : Hinders context records issues Stage.cataloguing.name
    ↔ 999999999 < context.settings.recentDays
      ∨ ∃ record ∈ Cataloguing.met context, Timestamp.isDated record.time = false := by
  constructor
  · rintro ⟨hindrance, same, arises⟩
    cases hindrance with
    | longSpan => exact .inl arises
    | undated record => exact .inr ⟨record, arises⟩
    | uncountable => simp [Hindrance.stage, Stage.cataloguing, Stage.score] at same
  · rintro (long | ⟨record, undated⟩)
    · exact ⟨.longSpan, rfl, long⟩
    · exact ⟨.undated record, rfl, undated⟩

theorem hinders_score_iff : Hinders context records issues Stage.score.name
    ↔ ¬ (Scorecard.volumeOf issues records).AreFinite := by
  constructor
  · rintro ⟨hindrance, same, arises⟩
    cases hindrance with
    | uncountable => exact arises
    | longSpan | undated _ => simp [Hindrance.stage, Stage.cataloguing, Stage.score] at same
  · intro uncountable
    exact ⟨.uncountable, rfl, uncountable⟩

/-- Nothing hinders the other stages. -/
theorem not_hinders {stage : Stage} (other : stage = .stackProfile ∨ stage = .structureScan
      ∨ stage = .qualityScan ∨ stage = .locations) : ¬ Hinders context records issues stage.name := by
  rintro ⟨hindrance, same, -⟩
  rcases other with rfl | rfl | rfl | rfl <;> cases hindrance <;>
    simp [Hindrance.stage, Stage.cataloguing, Stage.stackProfile, Stage.score, Stage.structureScan,
      Stage.qualityScan, Stage.locations] at same

end

/-! ## Findings -/

section

variable {context : StageContext} {invoked : List (String × Value)} {stages : List Stage}
  {state : Entries} {stage : Stage} {snapshot : Value} {records : List FileRecord} {issues : List Issue}

theorem Settled.exists_issues (settled : Settled context invoked stages state)
    (builtin : ∀ stage ∈ stages, stage ∈ builtinStages) :
    ∃ issues : List Issue,
      Lists state "code_quality" "issues" (issues.map fun issue => issue.toValue.plainForm) := by
  have isBuiltin : Stage.qualityScan ∈ builtinStages := by simp [builtinStages]
  have provides : "code_quality" ∈ Stage.qualityScan.provides := by simp [Stage.qualityScan]
  rcases settled.provided_cases builtin isBuiltin with missing | ⟨snapshot, delta, -, returned, left⟩
  · exact ⟨[], .inl ⟨missing _ provides, rfl⟩⟩
  · obtain ⟨_, _, findings, -, -, rfl⟩ := QualityFindings.exists_of_delta returned
    refine ⟨findings.issues, .inr ⟨_, left _ provides, ?_⟩⟩
    rw [lookup_plainEntries, show List.lookup "issues" _ = some (.list (findings.issues.map Issue.toValue))
      from rfl, Option.map_some, Value.plainForm, Value.plainItems_eq_map, List.map_map]
    rfl

theorem Lists.published {report : Entries} {part key : String} {items : List Value}
    (lists : Lists state part key items) (shown : isInternalKey key = false)
    (published : report.lookup part = (state.lookup part).map Value.publish) :
    Lists report part key (items.map Value.publish) := by
  rcases lists with ⟨missing, rfl⟩ | ⟨entries, present, listed⟩
  · exact .inl ⟨by rw [published, missing]; rfl, rfl⟩
  · refine .inr ⟨Value.publishEntries entries, ?_, ?_⟩
    · rw [published, present]
      rfl
    · rw [lookup_publishEntries_of_shown shown, listed, Option.map_some, Value.publish,
        Value.publishItems_eq_map]

/-! ## Stages -/

/-- A score is given unless something cannot be counted. -/
theorem Assessment.exists_ofSnapshot_iff (took : Took context invoked state .score snapshot)
    (catalogued : Catalogued context state records)
    (listed : Lists state "code_quality" "issues" (issues.map fun issue => issue.toValue.plainForm))
    {outlines : List Outline}
    (outlined : Lists state "code_structure" "files" (outlines.map Outline.toValue)) :
    (∃ v, ofSnapshot Scorecard.standard snapshot = .ok v)
      ↔ (Scorecard.volumeOf issues records).AreFinite := by
  have shows_ := took.showsRecords catalogued (by simp [Stage.score]) (by simp [Stage.score])
  obtain ⟨files, hasFiles, members⟩ := shows_.files
  have seenIssues := took.partField_eq listed (by simp [Stage.score]) (by decide)
  have seenOutlines : Snapshot.outlines snapshot = _ :=
    took.partField_eq outlined (by simp [Stage.score]) (by decide)
  have counted := Scorecard.countVolume_frozen
    (by rw [members_frozen, List.map_map]; rfl :
      ((Value.list (issues.map fun issue => issue.toValue.plainForm)).freeze.orElse (.list [])).members
        = .ok (issues.map fun issue => issue.toValue.plainForm.freeze)) members
  have paths : ((outlines.map Outline.toValue).map Value.freeze).mapM (·.entry "path")
      = .ok ((outlines.map (·.path)).map Value.str) := by
    rw [List.map_map, List.mapM_map, List.map_map]
    exact mapM_eq_ok_map fun o _ => rfl
  rw [← exists_evaluate_iff counted (outlines.map (·.path)) (contentsOf records)]
  simp only [ofSnapshot, seenIssues, hasFiles, seenOutlines, members_frozen, shows_.contents, bind,
    Except.bind] at paths ⊢
  rw [paths]

/-- A built-in stage returns unless something hinders it. -/
theorem Took.exists_delta_iff (took : Took context invoked state stage snapshot)
    (builtin : stage ∈ builtinStages) (described : context.Described) (root : context.HasRoot)
    (positive : 0 < context.settings.recentDays) (catalogued : Catalogued context state records)
    {outlines : List Outline} {dependencies : List Value}
    (outlined : Lists state "code_structure" "files" (outlines.map Outline.toValue))
    (depends : Lists state "tech_stack" "dependencies" dependencies)
    (declared : ∀ entry ∈ dependencies, IsDeclared records entry)
    (listed : Lists state "code_quality" "issues" (issues.map fun issue => issue.toValue.plainForm)) :
    (∃ delta, (stage.run context snapshot).result.delta? = some delta)
      ↔ ¬ Hinders context records issues stage.name := by
  simp only [builtinStages, List.mem_cons, List.not_mem_nil, or_false] at builtin
  -- Only cataloguing and the scores can be hindered; the others return.
  rcases builtin with rfl | rfl | rfl | rfl | rfl | rfl
  · rw [hinders_cataloguing_iff]
    rcases Cataloguing.run_cases described root with
      ⟨short, dated, catalog, returned⟩ | ⟨hindered, failure, failed, -⟩
    · rw [show (Stage.cataloguing.run context snapshot).result = _ from returned]
      refine ⟨fun _ => ?_, fun _ => ⟨_, rfl⟩⟩
      rintro (long | ⟨record, met, undated⟩)
      · omega
      · rw [dated record met] at undated
        cases undated
    · rw [show (Stage.cataloguing.run context snapshot).result = _ from failed]
      have notReturned : ¬ ∃ delta, (StageResult.failed failure).delta? = some delta := by
        simp [StageResult.delta?]
      exact ⟨fun returned => absurd returned notReturned,
        fun free => absurd (hindered.imp_left (by omega)) free⟩
  · obtain ⟨name, hinted⟩ := described.framework
    have shows_ := took.showsRecords catalogued (by simp [Stage.stackProfile]) (by simp [Stage.stackProfile])
    exact ⟨fun _ => not_hinders (.inl rfl), fun _ => StackProfile.exists_delta shows_ hinted⟩
  · have shows_ := took.showsRecords catalogued (by simp [Stage.structureScan])
      (by simp [Stage.structureScan])
    obtain ⟨delta, returned⟩ := ProjectStructure.exists_delta described.numbers shows_
    rw [show (Stage.structureScan.run context snapshot).result = _ from returned]
    exact ⟨fun _ => not_hinders (.inr (.inl rfl)), fun _ => ⟨delta, rfl⟩⟩
  · have returns := QualityFindings.exists_delta took described.numbers catalogued outlined depends declared
    exact ⟨fun _ => not_hinders (.inr (.inr (.inl rfl))), fun _ => returns⟩
  · obtain ⟨type, typed⟩ := described.projectType
    have shows_ := took.showsRecords catalogued (by simp [Stage.locations]) (by simp [Stage.locations])
    obtain ⟨found, places, -⟩ := Locations.exists_ofSnapshot shows_ type
    refine ⟨fun _ => not_hinders (.inr (.inr (.inr rfl))), fun _ => ⟨[("key_locations", found.toValue)], ?_⟩⟩
    refine StageRun.delta?_ofResult.mpr ?_
    rw [typed, places]
    rfl
  · rw [hinders_score_iff, not_not, ← Assessment.exists_ofSnapshot_iff took catalogued listed outlined]
    constructor
    · rintro ⟨delta, returned⟩
      obtain ⟨v, assessed, -⟩ := bind_eq_ok.mp (StageRun.delta?_ofResult.mp returned)
      exact ⟨v, assessed⟩
    · rintro ⟨v, assessed⟩
      exact ⟨_, StageRun.delta?_ofResult.mpr (bind_eq_ok.mpr ⟨v, assessed, rfl⟩)⟩

end

/-! ## Analyses -/

end Surveyor
