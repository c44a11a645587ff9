import Surveyor.Proofs.Pipeline.Returned

/-! # What leaves an analysis

Keys that start with an underscore are for the stages only. Since publishing commutes with merging, it
makes no difference whether a stage returns such keys or not, except to later stages: two analyses whose
stages return deltas that differ under such keys only have the same report outside of the record. The
exception is a set without an order, which cannot be merged, under such a key as anywhere else.
-/

namespace Surveyor

namespace Analysis

def Returns (a : Analysis) (deltas : List Entries) : Prop :=
  ∃ context stages opened, a.ComesTo context stages opened
    ∧ deltas = returnedDeltas context stages (invocations a.run.journal)

/-- Nobody cancels the analysis, the clock tells the time, and every stage fails or returns what can be
merged. -/
structure Undisturbed (a : Analysis) (context : StageContext) (stages : List Stage) : Prop where
  notCancelled : a.isCancelled = false
  neverCancels : ∀ listener, a.listener = some listener →
    ∀ earlier event, (listener.react earlier event).cancels = false
  tells : Session.TellsTime a.session.times
  ordinary : ∀ stage ∈ stages, ∀ snapshot, (stage.run context snapshot).result.IsOrdinary
  merges : ∀ stage ∈ stages, stage.Merges context a.around.analyzedAt

section

variable {a : Analysis} {report : Entries}

/-- What a path leads to in a report is what it led to when the stages had finished. -/
theorem exists_state_of_ok (returned : a.run.result = .ok report) :
    ∃ context stages opened state, a.ComesTo context stages opened
      ∧ LeftByStages context a.around.analyzedAt stages opened state
      ∧ Value.map report = (Value.map state).publish := by
  obtain ⟨context, stages, opened, begins⟩ := exists_comesTo_of_ok returned
  rw [begins.run_eq] at returned
  obtain ⟨state, left, rfl⟩ := runPipeline_eq_ok returned
  exact ⟨context, stages, opened, state, begins, left, rfl⟩

theorem merged_outsideRecord {deltas : List Entries} (returns : a.Returns deltas)
    (unwritten : ∀ delta ∈ deltas, recordKey ∉ delta.keys)
    (sets : ∀ delta ∈ deltas, (Value.map delta).hasScalarSets = true)
    (returned : a.run.result = .ok report) :
    (deltas.map Value.publishEntries).foldlM Entries.merge [] = .ok (outsideRecord report) := by
  obtain ⟨context, stages, opened, begins, areReturned⟩ := returns
  rw [begins.run_eq] at returned areReturned
  exact outsideRecord_returned returned begins.invoked_eq areReturned unwritten sets

theorem Undisturbed.exists_report {context : StageContext} {stages : List Stage} {opened : Session}
    (undisturbed : a.Undisturbed context stages) (begins : a.ComesTo context stages opened) :
    ∃ report, a.run.result = .ok report := by
  have steady : a.session.Steady a.session.times :=
    ⟨undisturbed.notCancelled, undisturbed.neverCancels, fun _ member => member⟩
  obtain ⟨outcomes, folds⟩ := runPipeline_folds undisturbed.tells context a.around.analyzedAt
    (begins.steady steady) begins.invoked_eq undisturbed.ordinary undisturbed.merges
  obtain ⟨duration, published⟩ := folds.published
  rw [begins.run_eq]
  exact ⟨_, published⟩

end

/-- What publishing promises: where a delta can be merged, publishing commutes with it; no mapping in a
report, at any depth, has an internal key, and everything that a path without such keys leads to before is
led to after; analyses whose deltas differ under such keys only agree outside of the record, and nothing
but a disturbance keeps them from returning. -/
theorem publishing_hides_internal_keys :
    (∀ target delta : Entries, (Value.map delta).hasScalarSets = true →
      (Value.map delta).hasOrderedSets = true → ∃ merged, target.merge delta = .ok merged
        ∧ Entries.merge (Value.publishEntries target) (Value.publishEntries delta)
          = .ok (Value.publishEntries merged))
    ∧ (∀ (a : Analysis) (report : Entries), a.run.result = .ok report →
      (∀ path found key, (Value.map report).at? path = some found →
        (found.get? key).isSome = true → isInternalKey key = false)
      ∧ ∃ context stages opened state, a.ComesTo context stages opened
        ∧ LeftByStages context a.around.analyzedAt stages opened state
        ∧ ∀ path, (∀ turn ∈ path, turn.isInternal = false) →
          (Value.map report).at? path = ((Value.map state).at? path).map Value.publish)
    ∧ (∀ (a b : Analysis) (deltas others : List Entries), a.Returns deltas → b.Returns others →
      (∀ delta ∈ deltas ++ others,
        recordKey ∉ delta.keys ∧ (Value.map delta).hasScalarSets = true) →
      deltas.map Value.publishEntries = others.map Value.publishEntries →
      ∀ report other, a.run.result = .ok report → b.run.result = .ok other →
        outsideRecord report = outsideRecord other)
    ∧ ∀ (a : Analysis) context stages opened, a.ComesTo context stages opened →
      a.Undisturbed context stages → ∃ report, a.run.result = .ok report := by
  refine ⟨?_, ?_, ?_, ?_⟩
  · intro target delta sets ordered
    have merges : target.merge delta = .ok (target.overlay delta) := Entries.merge_of_ordered ordered
    exact ⟨_, merges, Value.merge_publishEntries sets merges⟩
  · intro a report returned
    obtain ⟨context, stages, opened, state, begins, left, published⟩ := exists_state_of_ok returned
    rw [published]
    refine ⟨fun path found key reached present => Value.shown_of_at?_publish reached present,
      context, stages, opened, state, begins, left, ?_⟩
    intro path shown
    have noneInternal : path.any Value.Turn.isInternal = false := by simpa using shown
    rw [Value.at?_publish, noneInternal]
    rfl
  · intro a b deltas others returns returnsOthers allowed same report other returned returnedOther
    have left := merged_outsideRecord returns
      (fun delta member => (allowed delta (List.mem_append_left _ member)).1)
      (fun delta member => (allowed delta (List.mem_append_left _ member)).2) returned
    have right := merged_outsideRecord returnsOthers
      (fun delta member => (allowed delta (List.mem_append_right _ member)).1)
      (fun delta member => (allowed delta (List.mem_append_right _ member)).2) returnedOther
    rw [same, right] at left
    exact (Except.ok.inj left).symm
  · intro a context stages opened begins undisturbed
    exact undisturbed.exists_report begins

/-- A number and a text have no order, so a set of them cannot be merged, not even under an internal key;
published first, there is nothing left of it to merge. -/
theorem unordered_set_not_merged :
    (Value.map [("_x", .set [.int 1, .str "a"])]).hasScalarSets = true
      ∧ (∃ fault, Entries.merge [] [("_x", .set [.int 1, .str "a"])] = .error fault)
      ∧ Entries.merge (Value.publishEntries []) (Value.publishEntries [("_x", .set [.int 1, .str "a"])])
        = .ok [] :=
  ⟨rfl, Entries.exists_fault_of_merge (by rfl) [], rfl⟩

def returning (delta : Entries) : Analysis :=
  ⟨besideSettings ⟨#[]⟩, ⟨some { root := "/srv/app" }, some [.ending "alpha" [] (.delta delta)]⟩,
    { rootPath := "/srv/app" }, none, false, [.whole 0]⟩

theorem returning_comesTo (delta : Entries) : ∃ context opened,
    (returning delta).ComesTo context [.ending "alpha" [] (.delta delta)] opened := by
  have accepted : orderError? [.ending "alpha" [] (.delta delta)] = none := by cbv
  refine ⟨_, _, ["app"], { root := "/srv/app" }, checkRoot_besideSettings, rfl, ?_, rfl⟩
  simp [returning, chooseStages, accepted, bind, Except.bind, pure, Except.pure]

theorem returning_undisturbed {delta : Entries} (unwritten : recordKey ∉ delta.keys)
    (ordered : (Value.map delta).hasOrderedSets = true) (context : StageContext) :
    (returning delta).Undisturbed context [.ending "alpha" [] (.delta delta)] where
  notCancelled := rfl
  neverCancels := by simp [returning]
  tells := by
    simp only [Session.TellsTime, session, returning, Session.times, Session.start,
      List.isEmpty_cons, Bool.false_eq_true, ↓reduceIte, List.mem_singleton, forall_eq]
    exact ⟨0, rfl⟩
  ordinary := by
    intro stage member snapshot
    rw [List.mem_singleton.mp member]
    exact unwritten
  merges := by
    intro stage member snapshot
    rw [List.mem_singleton.mp member]
    rintro _ ⟨⟩
    exact ordered

theorem returning_returns {delta : Entries} (unwritten : recordKey ∉ delta.keys)
    (ordered : (Value.map delta).hasOrderedSets = true) : (returning delta).Returns [delta] := by
  obtain ⟨context, opened, begins⟩ := returning_comesTo delta
  have undisturbed := returning_undisturbed unwritten ordered context
  refine ⟨context, _, opened, begins, ?_⟩
  obtain ⟨outcomes, folds⟩ := runPipeline_folds undisturbed.tells context "now"
    (begins.steady ⟨undisturbed.notCancelled, undisturbed.neverCancels, fun _ member => member⟩)
    begins.invoked_eq undisturbed.ordinary undisturbed.merges
  have invokedOnce := folds.invoked
  obtain ⟨outcome, rfl⟩ : ∃ outcome, outcomes = [outcome] :=
    List.length_eq_one_iff.mp (by simpa using congrArg List.length folds.inOrder)
  rw [begins.run_eq]
  simp only at invokedOnce
  show _ = returnedDeltas _ _ (invocations (runPipeline context "now" _ opened).1.journal)
  rw [invokedOnce]
  rfl

theorem raw_text_stays_inside :
    ∃ report other,
      (returning [("alpha", .map [("_raw", .str "text"), ("size", .int 1)])]).run.result = .ok report
      ∧ (returning [("alpha", .map [("size", .int 1)])]).run.result = .ok other
      ∧ outsideRecord report = outsideRecord other
      ∧ (∀ path found key, (Value.map report).at? path = some found →
        (found.get? key).isSome = true → isInternalKey key = false)
      ∧ ∃ merged, Entries.merge [("alpha", .int 0)] [("alpha", .map [("_raw", .int 1)])] = .ok merged
        ∧ Entries.merge [("alpha", .int 0)] [("alpha", .map [])] = .ok (Value.publishEntries merged) := by
  obtain ⟨commutes, hides, agree, ends⟩ := publishing_hides_internal_keys
  have unwritten : ∀ value, recordKey ∉ Entries.keys [("alpha", value)] := by
    intro value
    show recordKey ∉ ["alpha"]
    decide
  obtain ⟨context, opened, begins⟩ := returning_comesTo
    [("alpha", .map [("_raw", .str "text"), ("size", .int 1)])]
  obtain ⟨contextOther, openedOther, beginsOther⟩ := returning_comesTo
    [("alpha", .map [("size", .int 1)])]
  obtain ⟨report, returned⟩ := ends _ _ _ _ begins (returning_undisturbed (unwritten _) rfl context)
  obtain ⟨other, returnedOther⟩ := ends _ _ _ _ beginsOther
    (returning_undisturbed (unwritten _) rfl contextOther)
  refine ⟨report, other, returned, returnedOther, ?_, (hides _ report returned).1,
    commutes [("alpha", .int 0)] [("alpha", .map [("_raw", .int 1)])] rfl rfl⟩
  refine agree _ _ _ _ (returning_returns (unwritten _) rfl) (returning_returns (unwritten _) rfl) ?_
    (by rfl) report other returned returnedOther
  simp only [List.singleton_append, List.mem_cons, List.not_mem_nil, or_false]
  rintro delta (rfl | rfl)
  · exact ⟨unwritten _, by rfl⟩
  · exact ⟨unwritten _, by rfl⟩

end Analysis

end Surveyor
