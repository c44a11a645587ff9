import Surveyor.Proofs.Pipeline.Order
import Surveyor.Proofs.Pipeline.Publication
import Surveyor.Proofs.Value.Frozen

/-! # What stages read and provide

Where every part of a report has one provider, and no stage reads what it or a later stage provides,
a part is written once and never changes again. So the state that is left in the end tells what each
stage was handed: the parts it reads, as they stand there, frozen. And it tells what each stage
returned: the parts it provides, as they stand there (`Settled`).
-/

namespace Surveyor

/-! ## Stages in order -/

/-- Every part has one provider, and no stage reads what it or a later one provides. -/
structure InOrder (stages : List Stage) : Prop where
  apart : stages.Pairwise fun a b => ∀ part ∈ a.provides, part ∉ b.provides
  behind : stages.Pairwise fun a b => ∀ part ∈ a.reads, part ∉ b.provides
  notOwn : ∀ stage ∈ stages, ∀ part ∈ stage.reads, part ∉ stage.provides

theorem nodup_names_of_accepted {stages : List Stage} (accepted : orderError? stages = none) :
    (stages.map (·.name)).Nodup :=
  (orderError?_eq_none_iff.mp accepted).2.1

/-- The stages that are let run are in order, if those of different names provide different parts. -/
theorem inOrder_of_accepted {stages : List Stage} (accepted : orderError? stages = none)
    (different : ∀ a ∈ stages, ∀ b ∈ stages, a.name ≠ b.name → ∀ part ∈ a.provides, part ∉ b.provides) :
    InOrder stages := by
  obtain ⟨-, named, behindFirst⟩ := orderError?_eq_none_iff.mp accepted
  have apart : stages.Pairwise fun a b => ∀ part ∈ a.provides, part ∉ b.provides := by
    refine (List.pairwise_map.mp named).imp_of_mem ?_
    intro a b inA inB unequal
    exact different a inA b inB unequal
  -- The one provider of what a stage reads stands before the stage.
  have before : ∀ (i j : Nat) (hi : i < stages.length) (hj : j < stages.length), i ≤ j →
      ∀ part ∈ stages[i].reads, part ∉ stages[j].provides := by
    intro i j hi hj upTo part reads provides
    obtain ⟨origin, earlier, provided⟩ := behindFirst part i
      ⟨stages[i], List.getElem?_eq_getElem hi, reads⟩ ⟨j, (providedAt_iff_getElem hj).mpr provides⟩
    exact List.pairwise_iff_getElem.mp apart origin j provided.lt_length hj (by omega) part
      ((providedAt_iff_getElem provided.lt_length).mp provided) provides
  refine ⟨apart, ?_, ?_⟩
  · rw [List.pairwise_iff_getElem]
    intro i j hi hj less
    exact before i j hi hj (Nat.le_of_lt less)
  · intro stage member
    obtain ⟨i, hi, rfl⟩ := List.mem_iff_getElem.mp member
    exact before i i hi hi (Nat.le_refl i)

/-- A stage that returns each of the parts it provides at most once, and nothing else. -/
structure Stage.Tidy (context : StageContext) (stage : Stage) : Prop where
  once : ∀ snapshot delta, (stage.run context snapshot).result.delta? = some delta →
    delta.keys.Nodup
  own : ∀ snapshot delta, (stage.run context snapshot).result.delta? = some delta →
    ∀ part ∈ delta.keys, part ∈ stage.provides
  noRecord : recordKey ∉ stage.provides

/-! ## Settled states -/

/-- A state shows what a stage was handed and what it returned. -/
structure Took (context : StageContext) (invoked : List (String × Value)) (state : Entries)
    (stage : Stage) (snapshot : Value) : Prop where
  handed : (stage.name, snapshot) ∈ invoked
  saw : ∀ part ∈ stage.reads, part ≠ recordKey →
    snapshot.field part = .ok (((state.lookup part).map Value.freeze).getD .null)
  left : ∀ part ∈ stage.provides,
    state.lookup part
      = ((stage.run context snapshot).result.delta?.bind (·.lookup part)).map Value.plainForm

/-- A state shows this of all stages, each of them invoked once, and holds nothing else. -/
structure Settled (context : StageContext) (invoked : List (String × Value)) (stages : List Stage)
    (state : Entries) : Prop where
  names : invoked.map Prod.fst = stages.map (·.name)
  provided : ∀ part, state.lookup part ≠ none → ∃ stage ∈ stages, part ∈ stage.provides
  took : ∀ stage ∈ stages, ∃ snapshot, Took context invoked state stage snapshot

theorem field_handedTo {stage : Stage} {state report : Entries} (first : RecordFirst state report)
    {part : String} (reads : part ∈ stage.reads) (different : part ≠ recordKey) :
    (handedTo stage report).field part = .ok (((state.lookup part).map Value.freeze).getD .null) := by
  obtain ⟨record, rfl⟩ := first
  have seen : (restrict ((recordKey, .map record) :: state) stage.reads).lookup part
      = state.lookup part := by
    rw [restrict, Entries.lookup_filter (fun key => key == recordKey || stage.reads.contains key),
      Entries.lookup_cons_of_ne different]
    simp [reads]
  simp only [handedTo, Value.freeze, Value.field, Value.fieldOr, Value.lookup_freezeEntries, seen]

section

variable {context : StageContext} {stage : Stage} {done : List Stage} {state : Entries}
  {invoked : List (String × Value)} {snapshot : Value}

/-- What a stage does not provide, it leaves alone. -/
theorem Stage.Tidy.kept (tidy : stage.Tidy context) (snapshot : Value) (state : Entries) {part : String}
    (notProvided : part ∉ stage.provides) :
    ((stage.run context snapshot).result.delta?.toList.foldl Entries.overlay state).lookup part
      = state.lookup part := by
  cases returned : (stage.run context snapshot).result.delta? with
  | none => rfl
  | some delta =>
    exact Entries.lookup_overlay_of_unmentioned state
      fun member => notProvided (tidy.own snapshot delta returned part member)

/-- What a stage returns for a part that is not there yet, it enters. -/
theorem Stage.Tidy.entered (tidy : stage.Tidy context) (snapshot : Value) {state : Entries}
    {part : String} (fresh : state.lookup part = none) :
    ((stage.run context snapshot).result.delta?.toList.foldl Entries.overlay state).lookup part
      = ((stage.run context snapshot).result.delta?.bind (·.lookup part)).map Value.plainForm := by
  cases returned : (stage.run context snapshot).result.delta? with
  | none => exact fresh
  | some delta => exact Entries.lookup_overlay_of_fresh fresh (tidy.once snapshot delta returned)

/-- One more stage leaves the state settled: it writes to parts that no earlier stage reads or
provides. -/
theorem Settled.step (settled : Settled context invoked done state) (tidy : stage.Tidy context)
    (inOrder : InOrder (done ++ [stage]))
    (saw : ∀ part ∈ stage.reads, part ≠ recordKey →
      snapshot.field part = .ok (((state.lookup part).map Value.freeze).getD .null)) :
    Settled context (invoked ++ [(stage.name, snapshot)]) (done ++ [stage])
      ((stage.run context snapshot).result.delta?.toList.foldl Entries.overlay state) := by
  have apart := (List.pairwise_append.mp inOrder.apart).2.2
  have behind := (List.pairwise_append.mp inOrder.behind).2.2
  have fresh : ∀ part ∈ stage.provides, state.lookup part = none := by
    intro part provides
    by_contra present
    obtain ⟨earlier, isDone, alsoProvides⟩ := settled.provided part present
    exact apart earlier isDone stage (by simp) part alsoProvides provides
  constructor
  · rw [List.map_append, List.map_append, settled.names]
    rfl
  · intro part present
    by_cases provides : part ∈ stage.provides
    · exact ⟨stage, by simp, provides⟩
    · rw [tidy.kept snapshot state provides] at present
      obtain ⟨earlier, isDone, provides⟩ := settled.provided part present
      exact ⟨earlier, List.mem_append_left _ isDone, provides⟩
  · intro taken member
    rcases List.mem_append.mp member with isDone | isNow
    · -- What an earlier stage read or provided is no part of this one.
      obtain ⟨earlierSnapshot, took⟩ := settled.took taken isDone
      refine ⟨earlierSnapshot, List.mem_append_left _ took.handed, ?_, ?_⟩
      · intro part reads different
        rw [tidy.kept snapshot state (behind taken isDone stage (by simp) part reads)]
        exact took.saw part reads different
      · intro part provides
        rw [tidy.kept snapshot state (apart taken isDone stage (by simp) part provides)]
        exact took.left part provides
    · obtain rfl : taken = stage := by simpa using isNow
      refine ⟨snapshot, by simp, ?_, fun part provides => tidy.entered snapshot (fresh part provides)⟩
      intro part reads different
      rw [tidy.kept snapshot state (inOrder.notOwn taken (by simp) part reads)]
      exact saw part reads different

end

/-- Stages that came to an end have left a settled state behind the record. -/
theorem runStages_settled {context : StageContext} {total : Nat} {stages done : List Stage}
    {index : Nat} {report final state : Entries} {s after : Session}
    (ran : runStages context total stages index report s = (after, .ok final))
    (tidy : ∀ stage ∈ stages, stage.Tidy context) (inOrder : InOrder (done ++ stages))
    (first : RecordFirst state report) (settled : Settled context s.invoked done state) :
    ∃ left, RecordFirst left final ∧ Settled context after.invoked (done ++ stages) left := by
  induction stages generalizing done index report state s with
  | nil =>
    obtain ⟨rfl, same⟩ := Prod.mk.inj ran
    cases same
    exact ⟨state, first, by simpa using settled⟩
  | cons stage rest inductionHypothesis =>
    rw [runStages] at ran
    split at ran
    · cases ran
    · next between next ranStage =>
      obtain ⟨invokedNow, merged, failure, duration, settles, entered⟩ := runStage_eq_ok ranStage
      have ownTidy := tidy stage (by simp)
      -- What holds of the order of all stages holds of those up to this one.
      have inOrderSoFar : InOrder (done ++ [stage]) := by
        have part : (done ++ [stage]).Sublist (done ++ stage :: rest) := by simp
        exact ⟨inOrder.apart.sublist part, inOrder.behind.sublist part,
          fun stage member => inOrder.notOwn stage (part.subset member)⟩
      have settledNow := settled.step ownTidy inOrderSoFar
        fun part reads different => field_handedTo first reads different
      rw [← invokedNow] at settledNow
      have firstNow := appendLayer_recordFirst (settle_recordFirst first
        (fun delta returned member =>
          ownTidy.noRecord (ownTidy.own _ delta returned recordKey member)) settles) entered
      rw [List.append_cons] at inOrder ⊢
      exact inductionHypothesis ran (fun later member => tidy later (by simp [member])) inOrder
        firstNow settledNow

theorem lookup_publishEntries_of_shown {entries : Entries} {key : String}
    (shown : isInternalKey key = false) :
    (Value.publishEntries entries).lookup key = (entries.lookup key).map Value.publish := by
  rw [Value.lookup_publishEntries, shown]
  rfl

/-- The report of an analysis shows the settled state that its stages left, published. -/
theorem Analysis.exists_settled {a : Analysis} {context : StageContext} {stages : List Stage}
    {opened : Session} {report : Entries} (begins : a.ComesTo context stages opened)
    (tidy : ∀ stage ∈ stages, stage.Tidy context) (inOrder : InOrder stages)
    (returned : a.run.result = .ok report) :
    ∃ state, Settled context (invocations a.run.journal) stages state
      ∧ ∀ part, isInternalKey part = false → part ≠ recordKey →
        report.lookup part = (state.lookup part).map Value.publish := by
  have journal : invocations a.run.journal
      = (runPipeline context a.around.analyzedAt stages opened).1.invoked := by
    rw [begins.run_eq]
    rfl
  rw [begins.run_eq] at returned
  rw [journal]
  simp only [runPipeline_eq] at returned ⊢
  split at returned
  · cases returned
  · next worked merged ranStages =>
    obtain ⟨sameInvoked, duration, final, failed, entered, rfl⟩ :=
      finishRun_eq_ok (Prod.ext rfl returned)
    have settledFirst : Settled context (beginRun context stages opened).2.invoked [] [] :=
      ⟨by rw [invoked_beginRun, begins.invoked_eq]; rfl, by simp, by simp⟩
    have inOrderFirst : InOrder ([] ++ stages) := inOrder
    obtain ⟨state, first, settled⟩ :=
      runStages_settled ranStages tidy inOrderFirst ⟨_, rfl⟩ settledFirst
    obtain ⟨record, rfl⟩ := finishRecord_recordFirst first entered
    refine ⟨state, ?_, ?_⟩
    · show Settled context (Session.invoked _) stages state
      rw [sameInvoked]
      exact settled
    · intro part shown different
      rw [lookup_publishEntries_of_shown shown, Entries.lookup_cons_of_ne different]

end Surveyor
