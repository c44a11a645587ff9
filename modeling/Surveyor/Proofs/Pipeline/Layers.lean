import Mathlib.Data.List.Nodup
import Surveyor.Proofs.Pipeline.Dataflow

/-! # What the record tells of the stages

The record of a report has a layer for each stage that ran, with how it ended. In an analysis that
nobody disturbs, this is how the stage ended on the snapshot it was handed.
-/

namespace Surveyor

def StageResult.status : StageResult → String
  | .failed _ => "failed"
  | _ => "completed"

def layersOf (report : Entries) : List Value :=
  match (Value.map report).at? [.key recordKey, .key layersKey] with
  | some (.list layers) => layers
  | _ => []

def statusOf? (report : Entries) (name : String) : Option Value :=
  ((layersOf report).find? fun layer => (layer.get? "name").bind Value.str? == some name).bind
    fun layer => layer.get? "status"

theorem StageOutcome.get?_name (o : StageOutcome) : o.entry.get? "name" = some (.str o.stage.name) := by
  unfold entry
  cases o.result <;> rfl

theorem StageOutcome.get?_status (o : StageOutcome) :
    o.entry.get? "status" = some (.str o.result.status) := by
  unfold entry StageResult.status
  cases o.result <;> rfl

section

variable {context : StageContext} {analyzedAt : String} {stages : List Stage}
  {outcomes : List StageOutcome} {run : Run} {report : Entries}

theorem FoldsStages.layersOf_eq (folds : FoldsStages context analyzedAt stages outcomes run)
    (returned : run.result = .ok report) : layersOf report = outcomes.map StageOutcome.entry := by
  obtain ⟨duration, published⟩ := folds.published
  obtain rfl := Except.ok.inj (returned.symm.trans published)
  rfl

theorem FoldsStages.statusOf?_eq (folds : FoldsStages context analyzedAt stages outcomes run)
    (returned : run.result = .ok report) (name : String) :
    statusOf? report name
      = (outcomes.find? fun o => o.stage.name == name).map fun o => .str o.result.status := by
  have sameTest : (fun o : StageOutcome => (o.entry.get? "name").bind Value.str? == some name)
      = fun o => o.stage.name == name := by
    funext o
    simp [o.get?_name, Value.str?]
  rw [statusOf?, folds.layersOf_eq returned, List.find?_map]
  simp only [Function.comp_def, sameTest]
  cases outcomes.find? fun o => o.stage.name == name with
  | none => rfl
  | some o => exact o.get?_status

/-- Where names are different, a stage ended as it does on the snapshot it was handed. -/
theorem FoldsStages.exists_outcome (folds : FoldsStages context analyzedAt stages outcomes run)
    (distinct : (stages.map (·.name)).Nodup) {stage : Stage} (member : stage ∈ stages)
    {snapshot : Value} (handed : (stage.name, snapshot) ∈ invocations run.journal) :
    ∃ o, outcomes.find? (fun o => o.stage.name == stage.name) = some o
      ∧ o.result = (stage.run context snapshot).result := by
  have named : outcomes.map (fun o => o.stage.name) = stages.map (·.name) := by
    rw [← folds.inOrder, List.map_map]
    rfl
  rw [folds.invoked, List.mem_mapIdx] at handed
  obtain ⟨k, inRange, same⟩ := handed
  obtain ⟨sameName, rfl⟩ := Prod.mk.inj same
  -- The outcome of this name is the only one, and so its stage is the one in question.
  have isStage : outcomes[k].stage = stage := by
    refine List.inj_on_of_nodup_map distinct ?_ member sameName
    rw [← folds.inOrder]
    exact List.mem_map_of_mem (List.getElem_mem inRange)
  refine ⟨outcomes[k], ?_, ?_⟩
  · obtain ⟨o, found⟩ : ∃ o, outcomes.find? (fun o => o.stage.name == stage.name) = some o := by
      rw [← Option.isSome_iff_exists, List.find?_isSome]
      exact ⟨outcomes[k], List.getElem_mem inRange, by simp [sameName]⟩
    have isNamed : o.stage.name = stage.name := by simpa using List.find?_some found
    rw [← named] at distinct
    rw [found, List.inj_on_of_nodup_map distinct (List.mem_of_find?_eq_some found)
      (List.getElem_mem inRange) (isNamed.trans sameName.symm)]
  · rw [folds.fromSnapshots k inRange, isStage]

end

/-- An analysis that nobody disturbs tells in its report how each stage ended on what it was handed,
and tells nothing of others. -/
theorem Analysis.Undisturbed.exists_statuses {a : Analysis} {context : StageContext}
    {stages : List Stage} {opened : Session} (undisturbed : a.Undisturbed context stages)
    (begins : a.ComesTo context stages opened) (distinct : (stages.map (·.name)).Nodup) :
    ∃ report, a.run.result = .ok report
      ∧ (∀ stage ∈ stages, ∀ snapshot, (stage.name, snapshot) ∈ invocations a.run.journal →
        statusOf? report stage.name = some (.str (stage.run context snapshot).result.status))
      ∧ ∀ name, name ∉ stages.map (·.name) → statusOf? report name = none := by
  have steady : a.session.Steady a.session.times :=
    ⟨undisturbed.notCancelled, undisturbed.neverCancels, fun _ member => member⟩
  obtain ⟨outcomes, folds⟩ := runPipeline_folds undisturbed.tells context a.around.analyzedAt
    (begins.steady steady) begins.invoked_eq undisturbed.ordinary undisturbed.merges
  rw [← begins.run_eq] at folds
  obtain ⟨duration, published⟩ := folds.published
  refine ⟨_, published, ?_, ?_⟩
  · intro stage member snapshot handed
    obtain ⟨o, found, ended⟩ := folds.exists_outcome distinct member handed
    rw [folds.statusOf?_eq published, found, ← ended]
    rfl
  · intro name absent
    rw [folds.statusOf?_eq published, Option.map_eq_none_iff, List.find?_eq_none]
    intro o member same
    apply absent
    rw [← folds.inOrder, List.map_map, ← eq_of_beq same]
    exact List.mem_map_of_mem member

end Surveyor
