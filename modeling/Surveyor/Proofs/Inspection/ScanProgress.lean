import Surveyor.Proofs.Inspection.Accounting
import Surveyor.Proofs.Pipeline.Session
import Surveyor.Proofs.Quality.Growth

/-! # What is heard of a scan

Three scans tell how far they have come: the one for outlines, and those for names in use and for
commented code. Each goes through files of its own, and reports before or after it looks at one. What
a listener hears of them is nevertheless the same function of the interval and of the files
(`progress_heard`). The reports stand in the steps of a stage; that all of them are heard, in their
order, is proved of single deliveries first and then of a run of steps (`Session.delivered_of_take`).
-/

namespace Surveyor

open Snapshot

/-! ## What a listener hears -/

def Step.event? (stage : String) : Step → Option ProgressEvent
  | .report current total detail phase => some (Session.reportEvent stage current total detail phase)
  | .checkpoint | .log _ => none

def eventsOf (stage : String) (steps : List Step) : List ProgressEvent :=
  steps.filterMap (Step.event? stage)

theorem eventsOf_report (stage : String) (current total detail phase : Value) (rest : List Step) :
    eventsOf stage (.report current total detail phase :: rest)
      = Session.reportEvent stage current total detail phase :: eventsOf stage rest := rfl

theorem eventsOf_append (stage : String) (steps more : List Step) :
    eventsOf stage (steps ++ more) = eventsOf stage steps ++ eventsOf stage more :=
  List.filterMap_append ..

namespace Session

variable {s after : Session} {listener : Listener}

/-- An event is delivered even if the listener fails on it. -/
theorem delivered_deliver (listens : s.listener = some listener) (event : ProgressEvent) :
    (s.deliver event).delivered = event :: s.delivered
      ∧ (s.deliver event).listener = some listener := by
  simp only [deliver, listens]
  split
  · exact ⟨rfl, listens⟩
  · exact ⟨rfl, listens⟩

/-- If all steps are taken, the listener has heard of every report, in the order of the steps. -/
theorem delivered_of_take (listens : s.listener = some listener) {stage : String} {steps : List Step}
    (taken : s.take stage steps = (after, true)) :
    after.delivered = (eventsOf stage steps).reverse ++ s.delivered := by
  induction steps generalizing s with
  | nil =>
    cases taken
    rfl
  | cons step rest inductionHypothesis =>
    cases step with
    | log record =>
      exact inductionHypothesis (s := s.note (.logged record)) listens taken
    | checkpoint =>
      simp only [Session.take] at taken
      split at taken
      · cases taken
      · exact inductionHypothesis listens taken
    | report current total detail phase =>
      simp only [Session.take] at taken
      split at taken
      · cases taken
      · -- The event comes before those of the other steps, and so after them in what was delivered.
        have event := delivered_deliver listens (reportEvent stage current total detail phase)
        rw [inductionHypothesis event.2 taken, event.1, eventsOf_report, List.reverse_cons,
          List.append_assoc, List.singleton_append]

end Session

/-! ## Reports at an interval -/

/-- The event at a position of a phase, counted from 1. -/
def progressAt (phase : String) (paths : List String) (position : Nat) : ProgressEvent :=
  ⟨.str phase, .ofNat position, .ofNat paths.length, .str (paths[position - 1]?.getD "")⟩

/-- The events at the multiples of the interval and at the last position. -/
def progressOf (interval : Nat) (phase : String) (paths : List String) : List ProgressEvent :=
  ((List.range' 1 paths.length).filter fun position =>
    decide (interval ∣ position ∨ position = paths.length)).map (progressAt phase paths)

theorem zipIdx_eq_map_range' (paths : List String) :
    paths.zipIdx 1
      = (List.range' 1 paths.length).map fun position => (paths[position - 1]?.getD "", position) := by
  apply List.ext_getElem
  · simp
  · intro index inFiles _
    have bound : index < paths.length := by simpa using inFiles
    simp [List.getElem?_eq_getElem bound]

variable {settings : Settings} {interval : Nat} {every : Int}

/-- For a single file the interval is not looked at, and it need not be. -/
theorem isReported_intervalFor (positive : 0 < interval)
    (given : settings.progressInterval = .ok interval) {total : Nat}
    (chosen : settings.intervalFor total = .ok every) {position : Nat}
    (within : position ∈ List.range' 1 total) :
    isReported every position total = decide (interval ∣ position ∨ position = total) := by
  obtain ⟨first, last⟩ := List.mem_range'_1.mp within
  unfold Settings.intervalFor at chosen
  split at chosen
  · have atEnd : position = total := by omega
    simp [isReported, atEnd]
  · rw [given] at chosen
    cases chosen
    have isMultiple : ((position : Int) % (interval : Int) = 0) ↔ interval ∣ position := by
      rw [← Int.dvd_iff_emod_eq_zero, Int.natCast_dvd_natCast]
    have counted : (0 : Int) < interval := by omega
    rw [Bool.eq_iff_iff]
    simp only [isReported, Bool.or_eq_true, Bool.and_eq_true, beq_iff_eq, decide_eq_true_eq, counted,
      true_and, isMultiple, Int.natCast_inj]
    exact or_comm

theorem eventsOf_reportSteps (positive : 0 < interval)
    (given : settings.progressInterval = .ok interval) (stage : String) {phase : String}
    (named : phase ≠ "") {paths : List String}
    (chosen : settings.intervalFor paths.length = .ok every) :
    eventsOf stage (reportSteps every phase paths) = progressOf interval phase paths := by
  have isGiven : (Value.str phase).isGiven = true := by simpa [Value.isGiven] using named
  rw [eventsOf, reportSteps, zipIdx_eq_map_range', List.filterMap_map, List.filterMap_filterMap,
    progressOf, ← List.filterMap_eq_map, List.filterMap_filter]
  -- Both sides go through the same positions, and report at the same ones.
  apply List.filterMap_congr
  intro position within
  have reported := isReported_intervalFor positive given chosen within
  simp only [Function.comp_apply, reported]
  split
  · simp [Step.event?, Session.reportEvent, Value.orElse, isGiven, progressAt]
  · rfl

/-! ## The scans -/

def Snapshot.obfuscatedPaths (snapshot : Value) : List String :=
  ((listed snapshot "file_system").filter Snapshot.isObfuscated).filterMap fun record =>
    (record.get "path").str?

def Snapshot.namingTexts (snapshot : Value) : Contents :=
  (texts snapshot).filled (obfuscatedPaths snapshot)

/-- A scan that tells how far it has come. -/
inductive Scan where
  | outlines
  | references
  | comments

namespace Scan

def stage : Scan → Stage
  | outlines => .structureScan
  | references | comments => .qualityScan

def phase : Scan → String
  | outlines => "code-structure:scan"
  | references => "code-quality:references"
  | comments => "code-quality:comments"

def paths (snapshot : Value) : Scan → List String
  | outlines => (candidates snapshot).map fun record => (record.get "path").asStr
  | references => (namingTexts snapshot).map (·.1)
  | comments => ((namingTexts snapshot).map (·.1)).filter fun path => hasExtension path sourceExtensions

/-- The stage gets to the scan and through it: the snapshot can be read, and what comes before the scan
succeeds. -/
def IsReached (context : StageContext) (snapshot : Value) : Scan → Prop
  | outlines => ∃ sources, ProjectStructure.sourcesOf snapshot = .ok sources
  | references => ∃ input references, QualityInput.ofSnapshot snapshot = .ok input
      ∧ input.references context.settings = .ok references
  | comments => ∃ delta, (Stage.qualityScan.run context snapshot).result.delta? = some delta

def isOfPhase (scan : Scan) (event : ProgressEvent) : Bool := event.stage.str? == some scan.phase

/-- The events are those of the scan at an interval if it is reached; there are none if it is not. -/
structure Sends (interval : Nat) (context : StageContext) (snapshot : Value) (scan : Scan)
    (events : List ProgressEvent) : Prop where
  reached : scan.IsReached context snapshot →
    events = progressOf interval scan.phase (scan.paths snapshot)
  notReached : ¬ scan.IsReached context snapshot → events = []

variable {scan other : Scan} {context : StageContext} {snapshot : Value} {events : List ProgressEvent}

theorem sends_progressOf (isReached : scan.IsReached context snapshot) :
    scan.Sends interval context snapshot (progressOf interval scan.phase (scan.paths snapshot)) :=
  ⟨fun _ => rfl, fun notReached => absurd isReached notReached⟩

theorem sends_nil (notReached : ¬ scan.IsReached context snapshot) :
    scan.Sends interval context snapshot [] :=
  ⟨fun isReached => absurd isReached notReached, fun _ => rfl⟩

/-- Whatever a scan sends is of its phase. -/
theorem Sends.stage_eq (sends : scan.Sends interval context snapshot events) :
    ∀ event ∈ events, event.stage = .str scan.phase := by
  intro event member
  by_cases isReached : scan.IsReached context snapshot
  · rw [sends.reached isReached] at member
    obtain ⟨position, -, rfl⟩ := List.mem_map.mp member
    rfl
  · rw [sends.notReached isReached] at member
    cases member

theorem Sends.filter_own (sends : scan.Sends interval context snapshot events) :
    events.filter scan.isOfPhase = events := by
  rw [List.filter_eq_self]
  intro event member
  simp [isOfPhase, sends.stage_eq event member, Value.str?]

theorem Sends.filter_other (sends : other.Sends interval context snapshot events)
    (differ : other.phase ≠ scan.phase) : events.filter scan.isOfPhase = [] := by
  rw [List.filter_eq_nil_iff]
  intro event member
  simp [isOfPhase, sends.stage_eq event member, Value.str?, differ]

theorem phase_ne_empty (scan : Scan) : scan.phase ≠ "" := by cases scan <;> decide

end Scan

theorem Snapshot.mem_obfuscatedPaths_iff {snapshot : Value} {path : String} :
    path ∈ obfuscatedPaths snapshot ↔ IsFlagged snapshot path := by
  simp only [obfuscatedPaths, IsFlagged, List.mem_filterMap, List.mem_filter, Value.str?_get_eq_some_iff,
    Snapshot.isObfuscated, and_assoc]

/-- The files that are looked through for names in use depend on the snapshot only. -/
theorem QualityInput.referenceFiles_eq {snapshot : Value} {i : QualityInput}
    (read : ofSnapshot snapshot = .ok i) : i.referenceFiles = namingTexts snapshot := by
  simp only [ofSnapshot, bind_eq_ok, pure_eq_ok] at read
  obtain ⟨contents, readContents, files, readFiles, _, -, _, -, skip, flagged, _, -, rfl⟩ := read
  obtain rfl := contents_eq_texts readContents
  have sameSkip : ∀ path, skip.contains path = (obfuscatedPaths snapshot).contains path := by
    intro path
    rw [Bool.eq_iff_iff, List.contains_iff_mem, List.contains_iff_mem,
      mem_obfuscated_iff readFiles flagged, mem_obfuscatedPaths_iff]
  simp only [referenceFiles, namingTexts, Contents.filled, sameSkip]

theorem QualityInput.commentFiles_eq {snapshot : Value} {i : QualityInput}
    (read : ofSnapshot snapshot = .ok i) :
    i.commentFiles.map (·.1) = Scan.comments.paths snapshot := by
  simp only [commentFiles, referenceFiles_eq read, Scan.paths, List.filter_map, Function.comp_def]

theorem ProjectStructure.paths_sources {snapshot : Value} {sources : List SourceFile}
    (read : sourcesOf snapshot = .ok sources) :
    sources.map (·.path) = Scan.outlines.paths snapshot := by
  have samePaths : (((listed snapshot "file_system").filterMap
        (SourceFile.shownBy? snapshot)).filter fun _ => true).map (·.path)
      = ((candidates snapshot).filter fun _ => true).map fun record => (record.get "path").asStr := by
    apply map_filter_shownBy?
    intro record f shown
    rw [(SourceFile.shownBy?_eq_some shown).1]
    exact ⟨rfl, rfl⟩
  rw [sources_eq read, Scan.paths]
  simpa using samePaths

/-! ## The events of a stage -/

/-- A stage fails if a scan of it is not reached. -/
theorem Scan.failed_of_not_reached {scan : Scan} {context : StageContext} {snapshot : Value}
    (notReached : ¬ scan.IsReached context snapshot) :
    ∃ failure, (scan.stage.run context snapshot).result = .failed failure := by
  cases scan with
  | outlines =>
    cases read : ProjectStructure.sourcesOf snapshot with
    | error fault =>
      exact ⟨_, congrArg StageRun.result (ProjectStructure.run_of_unread read)⟩
    | ok sources => exact absurd ⟨sources, read⟩ notReached
  | references =>
    rcases QualityFindings.run_cases context snapshot with failed | ⟨_, _, _, -, -, returned⟩
    · exact failed
    · obtain ⟨i, references, _, read, collected, -⟩ :=
        QualityFindings.delta?_run_eq_some_iff.mp (congrArg StageResult.delta? returned)
      exact absurd ⟨i, references, read, collected⟩ notReached
  | comments =>
    rcases QualityFindings.run_cases context snapshot with failed | ⟨_, _, _, -, -, returned⟩
    · exact failed
    · exact absurd ⟨_, congrArg StageResult.delta? returned⟩ notReached

theorem Scan.not_reached_of_failed {context : StageContext} {snapshot : Value} {steps : List Step}
    {failure : StageFailure}
    (failed : QualityFindings.run context snapshot = ⟨steps, .failed failure⟩) :
    ¬ Scan.comments.IsReached context snapshot := by
  rintro ⟨delta, returned⟩
  cases (congrArg (fun run => run.result.delta?) failed).symm.trans returned

section Events

variable {context : StageContext} {snapshot : Value} (positive : 0 < interval)
  (given : context.settings.progressInterval = .ok interval)

include positive given

variable (snapshot) in
/-- The scan for outlines is all that its stage reports on. -/
theorem ProjectStructure.run_sends (stage : String) :
    Scan.outlines.Sends interval context snapshot (eventsOf stage (run context snapshot).steps) := by
  cases read : sourcesOf snapshot with
  | error fault =>
    rw [run_of_unread read]
    apply Scan.sends_nil
    rintro ⟨sources, found⟩
    rw [read] at found
    cases found
  | ok sources =>
    obtain ⟨every, chosen⟩ := Settings.exists_intervalFor ⟨_, given⟩ sources.length
    have skipped : eventsOf stage (skippedSteps (ofSources sources).skipped.length) = [] := by
      unfold skippedSteps
      split <;> rfl
    have sent : eventsOf stage (run context snapshot).steps
        = progressOf interval Scan.outlines.phase (Scan.outlines.paths snapshot) := by
      rw [run_of_read read chosen, eventsOf_append, skipped, List.append_nil, ← paths_sources read]
      rw [← List.length_map (·.path)] at chosen
      exact eventsOf_reportSteps positive given stage Scan.outlines.phase_ne_empty chosen
    rw [sent]
    exact Scan.sends_progressOf ⟨sources, read⟩

theorem QualityFindings.eventsOf_referenceSteps {i : QualityInput}
    (read : QualityInput.ofSnapshot snapshot = .ok i)
    (chosen : context.settings.intervalFor i.referenceFiles.length = .ok every) (stage : String)
    (names : Nat) :
    eventsOf stage (referenceSteps i every names)
      = progressOf interval Scan.references.phase (Scan.references.paths snapshot) := by
  have samePaths : i.referenceFiles.map (·.1) = Scan.references.paths snapshot := by
    rw [QualityInput.referenceFiles_eq read, Scan.paths]
  rw [← List.length_map (·.1)] at chosen
  rw [referenceSteps, eventsOf_append, ← samePaths]
  exact (List.append_nil _).trans
    (eventsOf_reportSteps positive given stage Scan.references.phase_ne_empty chosen)

theorem QualityFindings.eventsOf_commentSteps {i : QualityInput}
    (read : QualityInput.ofSnapshot snapshot = .ok i)
    (chosen : context.settings.intervalFor i.commentFiles.length = .ok every) (stage : String) :
    eventsOf stage (commentSteps i every)
      = progressOf interval Scan.comments.phase (Scan.comments.paths snapshot) := by
  rw [← List.length_map (·.1)] at chosen
  rw [← QualityInput.commentFiles_eq read]
  exact eventsOf_reportSteps positive given stage Scan.comments.phase_ne_empty chosen

variable (snapshot) in
/-- The stage reports on the names in use, and then on commented code; it can fail before the one or
the other. -/
theorem QualityFindings.run_sends (stage : String) :
    ∃ first second, eventsOf stage (run context snapshot).steps = first ++ second
      ∧ Scan.references.Sends interval context snapshot first
      ∧ Scan.comments.Sends interval context snapshot second := by
  -- The input, the names in use and the findings can fail, and each is drawn from what comes before it.
  cases read : QualityInput.ofSnapshot snapshot with
  | error fault =>
    have failed : run context snapshot = _ := run_of_unread read
    have notReached : ¬ Scan.references.IsReached context snapshot := by
      rintro ⟨i, _, found, -⟩
      rw [read] at found
      cases found
    refine ⟨[], [], ?_, Scan.sends_nil notReached, Scan.sends_nil (Scan.not_reached_of_failed failed)⟩
    rw [failed]
    rfl
  | ok i =>
    obtain ⟨every, chosen⟩ := Settings.exists_intervalFor ⟨_, given⟩ i.referenceFiles.length
    have looked := eventsOf_referenceSteps positive given read chosen stage
    cases collected : i.references context.settings with
    | error fault =>
      have failed := run_of_uncollected read collected
      have notReached : ¬ Scan.references.IsReached context snapshot := by
        rintro ⟨_, references, found, collectedToo⟩
        cases read.symm.trans found
        rw [collected] at collectedToo
        cases collectedToo
      refine ⟨[], [], ?_, Scan.sends_nil notReached, Scan.sends_nil (Scan.not_reached_of_failed failed)⟩
      rw [failed]
      rfl
    | ok references =>
      have reached : Scan.references.IsReached context snapshot := ⟨i, references, read, collected⟩
      cases found : ofInput i references context.settings with
      | error fault =>
        have failed := run_of_unfound read collected chosen found
        refine ⟨_, [], ?_, Scan.sends_progressOf reached,
          Scan.sends_nil (Scan.not_reached_of_failed failed)⟩
        rw [failed, looked, List.append_nil]
      | ok f =>
        obtain ⟨everyComment, chosenLater⟩ := Settings.exists_intervalFor ⟨_, given⟩ i.commentFiles.length
        have returned := run_of_found read collected chosen found chosenLater
        have reachedLater : Scan.comments.IsReached context snapshot :=
          ⟨_, congrArg (fun run => run.result.delta?) returned⟩
        refine ⟨_, _, ?_, Scan.sends_progressOf reached, Scan.sends_progressOf reachedLater⟩
        rw [returned, eventsOf_append, looked, eventsOf_commentSteps positive given read chosenLater]

variable (snapshot) in
/-- Under the phase of a scan, its stage sends what the scan does. -/
theorem Scan.sends_filter (scan : Scan) :
    scan.Sends interval context snapshot
      ((eventsOf scan.stage.name (scan.stage.run context snapshot).steps).filter scan.isOfPhase) := by
  cases scan with
  | outlines =>
    have sends := ProjectStructure.run_sends snapshot positive given "code-structure"
    exact sends.filter_own.symm ▸ sends
  | references =>
    obtain ⟨first, second, sent, sends, others⟩ :=
      QualityFindings.run_sends snapshot positive given "code-quality"
    have kept : (first ++ second).filter references.isOfPhase = first := by
      rw [List.filter_append, sends.filter_own, others.filter_other (by decide), List.append_nil]
    exact (congrArg (List.filter _) sent).trans kept ▸ sends
  | comments =>
    obtain ⟨first, second, sent, others, sends⟩ :=
      QualityFindings.run_sends snapshot positive given "code-quality"
    have kept : (first ++ second).filter comments.isOfPhase = second := by
      rw [List.filter_append, others.filter_other (by decide), sends.filter_own, List.nil_append]
    exact (congrArg (List.filter _) sent).trans kept ▸ sends

end Events

/-! ## What is heard of one scan -/

/-- If nobody cancels, what a listener hears under the phase of a scan that is reached are the reports
at the multiples of the interval and at the last file, each with the path of the file there, and the
listener hears nothing under it otherwise: the stage fails. (With a limit that is no number, a scan can
fail half-way; what is heard of it then is left open.) -/
theorem progress_heard (scan : Scan) (context : StageContext) (snapshot : Value) {interval : Nat}
    (positive : 0 < interval) (given : context.settings.progressInterval = .ok interval)
    {s : Session} {clock : List Quantity} (steady : s.Steady clock) {listener : Listener}
    (listens : s.listener = some listener) :
    ∃ (after : Session) (heard : List ProgressEvent),
      s.take scan.stage.name (scan.stage.run context snapshot).steps = (after, true)
      ∧ after.delivered = heard.reverse ++ s.delivered
      ∧ (scan.IsReached context snapshot →
        heard.filter scan.isOfPhase = progressOf interval scan.phase (scan.paths snapshot))
      ∧ (¬ scan.IsReached context snapshot → context.settings.NumbersGiven →
        heard.filter scan.isOfPhase = []
          ∧ ∃ failure, (scan.stage.run context snapshot).result = .failed failure) := by
  obtain ⟨after, taken, -, -⟩ := steady.take scan.stage.name (scan.stage.run context snapshot).steps
  have sends := scan.sends_filter snapshot positive given
  refine ⟨after, _, taken, Session.delivered_of_take listens taken, sends.reached,
    fun notReached _ => ?_⟩
  exact ⟨sends.notReached notReached, Scan.failed_of_not_reached notReached⟩

def everySecondFile : StageContext :=
  { QualityFindings.plainContext with settings := { root := "project", progressInterval := .ok 2 } }

/-- Of the three files that are scanned for outlines, the second one is heard of, and the last one. -/
theorem mixedListing_heard :
    ∃ after : Session, (Session.start (some ⟨fun _ _ => {}⟩) false []).take "code-structure"
          (Stage.structureScan.run everySecondFile mixedListing).steps = (after, true)
      ∧ after.delivered.reverse.filter Scan.outlines.isOfPhase
        = [⟨.str "code-structure:scan", .ofNat 2, .ofNat 3, .str "b.js"⟩,
          ⟨.str "code-structure:scan", .ofNat 3, .ofNat 3, .str "c.ts"⟩] := by
  have steady : (Session.start (some ⟨fun _ _ => {}⟩) false []).Steady [.double 0.0] :=
    ⟨rfl, fun _ same _ _ => by cases same; rfl, fun time member => member⟩
  have reached : Scan.outlines.IsReached everySecondFile mixedListing := ⟨_, rfl⟩
  obtain ⟨after, heard, taken, delivered, events, -⟩ :=
    progress_heard .outlines everySecondFile mixedListing (by decide) rfl steady rfl
  have all : after.delivered.reverse = heard := by simp [delivered, Session.start]
  refine ⟨after, taken, ?_⟩
  rw [all]
  exact events reached

end Surveyor
