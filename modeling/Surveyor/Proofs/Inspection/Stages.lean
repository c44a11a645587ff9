import Surveyor.Inspection.Builtin
import Surveyor.Proofs.Catalog.Records
import Surveyor.Proofs.Pipeline.Dataflow
import Surveyor.Proofs.Quality.Origins

/-! # What the built-in stages return

One inversion lemma for each stage says what it has read if it returned. From these it follows that
each returns just the parts it provides, so an analysis with built-in stages leaves a settled state
(`Inspects.exists_settled`), and who has provided a part is known from the part alone.
-/

namespace Surveyor

theorem StageRun.delta?_ofResult {result : Except ValueFault Entries} {delta : Entries} :
    (ofResult result).result.delta? = some delta ↔ result = .ok delta := by
  cases result <;> simp [ofResult, StageResult.delta?]

/-! ## Inversion -/

def Surveyed (context : StageContext) (catalog : Catalog) : Prop :=
  ∃ interval patterns, Cataloguing.preparation context = .ok (interval, patterns)
    ∧ Catalog.survey context.tree [] context.project.rootPath
      ⟨patterns, context.settings.maxFileSize⟩ (.int context.settings.recentDays) context.now
        = .ok catalog

theorem Cataloguing.exists_of_delta {context : StageContext} {delta : Entries}
    (returned : (run context).result.delta? = some delta) :
    ∃ catalog, Surveyed context catalog ∧ delta = Cataloguing.delta catalog := by
  simp only [run] at returned
  split at returned
  · cases returned
  · next interval patterns prepared =>
    split at returned
    · next catalog surveyed =>
      cases returned
      exact ⟨catalog, ⟨interval, patterns, prepared, surveyed⟩, rfl⟩
    · next fault _ => cases fault <;> cases returned

namespace ProjectStructure

variable {context : StageContext} {snapshot : Value} {sources : List SourceFile} {fault : ValueFault}

theorem run_of_unread (read : sourcesOf snapshot = .error fault) :
    run context snapshot = ⟨[], .failed (.ofFault fault)⟩ := by
  simp only [run, read, bind, Except.bind]

theorem run_of_unpaced (read : sourcesOf snapshot = .ok sources)
    (refused : context.settings.intervalFor sources.length = .error fault) :
    run context snapshot = ⟨[], .failed (.ofFault fault)⟩ := by
  simp only [run, read, refused, bind, Except.bind]

theorem run_of_read {every : Int} (read : sourcesOf snapshot = .ok sources)
    (chosen : context.settings.intervalFor sources.length = .ok every) :
    run context snapshot
      = ⟨reportSteps every "code-structure:scan" (sources.map (·.path))
          ++ skippedSteps (ofSources sources).skipped.length,
        .delta [("code_structure", (ofSources sources).toValue)]⟩ := by
  simp only [run, read, chosen, bind, Except.bind, pure, Except.pure]

end ProjectStructure

theorem ProjectStructure.exists_of_delta {context : StageContext} {snapshot : Value} {delta : Entries}
    (returned : (run context snapshot).result.delta? = some delta) :
    ∃ sources, sourcesOf snapshot = .ok sources
      ∧ delta = [("code_structure", (ofSources sources).toValue)] := by
  simp only [run] at returned
  split at returned
  · cases returned
  · next sources interval found =>
    cases returned
    simp only [bind_eq_ok, pure_eq_ok, Prod.mk.injEq] at found
    obtain ⟨_, read, _, -, rfl, -⟩ := found
    exact ⟨_, read, rfl⟩

theorem QualityFindings.exists_of_delta {context : StageContext} {snapshot : Value} {delta : Entries}
    (returned : (run context snapshot).result.delta? = some delta) :
    ∃ i references findings, QualityInput.ofSnapshot snapshot = .ok i
      ∧ ofInput i references context.settings = .ok findings
      ∧ delta = [("code_quality", findings.toValue)] := by
  rcases run_cases context snapshot with ⟨_, failed⟩ | ⟨i, references, findings, read, found, result⟩
  · rw [failed] at returned
    cases returned
  · rw [result] at returned
    cases returned
    exact ⟨i, references, findings, read, found, rfl⟩

structure Profiled (snapshot : Value) (profile : StackProfile) (contents : Contents) : Prop where
  contentsRead : Snapshot.contents snapshot = .ok contents
  isProfile : ∃ files hint, profile = .ofProject files contents (.ofContents contents) hint

theorem StackProfile.exists_of_delta {context : StageContext} {snapshot : Value} {delta : Entries}
    (returned : (run context snapshot).result.delta? = some delta) :
    ∃ profile contents, Profiled snapshot profile contents
      ∧ delta = [("tech_stack", profile.toValue)] := by
  simp only [run] at returned
  split at returned
  · cases returned
  · next files contents read =>
    simp only [readSnapshot, bind_eq_ok, pure_eq_ok, Prod.mk.injEq] at read
    obtain ⟨_, -, _, contentsRead, _, -, rfl, rfl⟩ := read
    simp only [runWith] at returned
    split at returned
    · cases returned
    · cases returned
      exact ⟨_, _, ⟨contentsRead, _, _, rfl⟩, rfl⟩

/-! ## Parts -/

theorem keys_of_builtin {context : StageContext} {stage : Stage} (builtin : stage ∈ builtinStages)
    {snapshot : Value} {delta : Entries}
    (returned : (stage.run context snapshot).result.delta? = some delta) :
    delta.keys = stage.provides := by
  simp only [builtinStages, List.mem_cons, List.not_mem_nil, or_false] at builtin
  rcases builtin with rfl | rfl | rfl | rfl | rfl | rfl
  · obtain ⟨catalog, -, rfl⟩ := Cataloguing.exists_of_delta returned
    rfl
  · obtain ⟨profile, _, -, rfl⟩ := StackProfile.exists_of_delta returned
    rfl
  · obtain ⟨sources, -, rfl⟩ := ProjectStructure.exists_of_delta returned
    rfl
  · obtain ⟨_, _, findings, -, -, rfl⟩ := QualityFindings.exists_of_delta returned
    rfl
  · have result := StageRun.delta?_ofResult.mp returned
    simp only [bind_eq_ok, pure_eq_ok] at result
    obtain ⟨found, -, rfl⟩ := result
    rfl
  · have result := StageRun.delta?_ofResult.mp returned
    simp only [bind_eq_ok, pure_eq_ok] at result
    obtain ⟨found, -, rfl⟩ := result
    rfl

theorem tidy_of_builtin {context : StageContext} {stage : Stage} (builtin : stage ∈ builtinStages) :
    stage.Tidy context := by
  have distinct : stage.provides.Nodup ∧ recordKey ∉ stage.provides := by
    simp only [builtinStages, List.mem_cons, List.not_mem_nil, or_false] at builtin
    rcases builtin with rfl | rfl | rfl | rfl | rfl | rfl <;> decide
  refine ⟨?_, ?_, distinct.2⟩
  · intro snapshot delta returned
    rw [keys_of_builtin builtin returned]
    exact distinct.1
  · intro snapshot delta returned part member
    rwa [keys_of_builtin builtin returned] at member

theorem provides_apart : ∀ a ∈ builtinStages, ∀ b ∈ builtinStages, a.name ≠ b.name →
    ∀ part ∈ a.provides, part ∉ b.provides := by decide

theorem eq_of_name : ∀ a ∈ builtinStages, ∀ b ∈ builtinStages, a.name = b.name → a = b := by
  simp only [builtinStages, List.forall_mem_cons]
  simp [Stage.cataloguing, Stage.stackProfile, Stage.structureScan, Stage.qualityScan,
    Stage.locations, Stage.score]

/-- A part that a built-in stage provides is provided by no other. -/
theorem eq_of_provides {a b : Stage} (inA : a ∈ builtinStages) (inB : b ∈ builtinStages)
    {part : String} (provides : part ∈ a.provides) (alsoProvides : part ∈ b.provides) : a = b := by
  by_contra different
  have named : a.name ≠ b.name := fun same => different (eq_of_name a inA b inB same)
  exact provides_apart a inA b inB named part provides alsoProvides

/-! ## Analyses -/

/-- An analysis with built-in stages, all or some of them, that returned a report. -/
structure Analysis.Inspects (a : Analysis) (context : StageContext) (stages : List Stage)
    (report : Entries) : Prop where
  begins : ∃ opened, a.ComesTo context stages opened
  builtin : ∀ stage ∈ stages, stage ∈ builtinStages
  returned : a.run.result = .ok report

theorem orderError?_of_chooseStages {around : Surroundings} {settings : Settings}
    {given : Option (List Stage)} {stages : List Stage}
    (chosen : chooseStages around settings given = .ok stages) : orderError? stages = none := by
  unfold chooseStages at chosen
  -- Stages that are given and stages that are discovered pass the same check.
  cases given with
  | some _ | none =>
    obtain ⟨found, -, chosen⟩ := bind_eq_ok.mp chosen
    simp only at chosen
    split at chosen
    · cases chosen
    · next accepted =>
      cases pure_eq_ok.mp chosen
      exact accepted

theorem Analysis.Inspects.exists_settled {a : Analysis} {context : StageContext}
    {stages : List Stage} {report : Entries} (inspects : a.Inspects context stages report) :
    ∃ state, Settled context (invocations a.run.journal) stages state
      ∧ ∀ part, isInternalKey part = false → part ≠ recordKey →
        report.lookup part = (state.lookup part).map Value.publish := by
  obtain ⟨opened, begins⟩ := inspects.begins
  have accepted : orderError? stages = none := by
    obtain ⟨_, _, -, -, chosen, -⟩ := begins
    exact orderError?_of_chooseStages chosen
  have inOrder := inOrder_of_accepted accepted fun a inA b inB =>
    provides_apart a (inspects.builtin a inA) b (inspects.builtin b inB)
  exact Analysis.exists_settled begins
    (fun stage member => tidy_of_builtin (inspects.builtin stage member)) inOrder inspects.returned

section

variable {context : StageContext} {invoked : List (String × Value)} {stages : List Stage}
  {state : Entries} {stage : Stage}

/-- What a built-in stage provides is in the state if the stage ran and returned it, and is not there
otherwise. -/
theorem Settled.provided_cases (settled : Settled context invoked stages state)
    (builtin : ∀ stage ∈ stages, stage ∈ builtinStages) (isBuiltin : stage ∈ builtinStages) :
    (∀ part ∈ stage.provides, state.lookup part = none)
      ∨ ∃ snapshot delta, Took context invoked state stage snapshot
        ∧ (stage.run context snapshot).result.delta? = some delta
        ∧ ∀ part ∈ stage.provides, state.lookup part = (delta.lookup part).map Value.plainForm := by
  by_cases ran : stage ∈ stages
  · obtain ⟨snapshot, took⟩ := settled.took stage ran
    cases returned : (stage.run context snapshot).result.delta? with
    | none =>
      refine .inl fun part provides => ?_
      rw [took.left part provides, returned]
      rfl
    | some delta =>
      refine .inr ⟨snapshot, delta, took, returned, fun part provides => ?_⟩
      rw [took.left part provides, returned]
      rfl
  · -- A part of a stage that did not run has no other provider.
    refine .inl fun part provides => ?_
    by_contra present
    obtain ⟨provider, inStages, alsoProvides⟩ := settled.provided part present
    rw [eq_of_provides isBuiltin (builtin provider inStages) provides alsoProvides] at ran
    exact ran inStages

end

/-! ## Directories -/

def directoryContext (entries : List (String × FileNode)) : StageContext where
  project := { rootPath := "/srv/app" }
  settings := { root := "/srv/app" }
  tree := ⟨"/srv", .directory [("app", .directory entries)]⟩
  now := 0

theorem find?_app {tree : FileTree} {entries : List (String × FileNode)}
    (isApp : tree = ⟨"/srv", .directory [("app", .directory entries)]⟩) (here : List String) :
    (tree.names? here "/srv/app").bind tree.find? = some (["app"], .directory entries) := by
  have below : (("/srv/app" : String) == "/srv" || Text.hasPrefix "/srv/app" ("/srv" ++ "/")) = true := by
    decide +kernel
  have rest : pathNames (String.ofList (("/srv/app" : String).toList.drop ("/srv" : String).length))
      = ["app"] := by
    decide +kernel
  have names : tree.names? here "/srv/app" = some ["app"] := by
    simp only [isApp, FileTree.names?, below, rest, ↓reduceIte]
  rw [names, isApp]
  simp [FileTree.find?, FileTree.lookupLimit, FileTree.walk, FileTree.plain?, FileNode.child?]

theorem checkRoot_app {around : Surroundings} {entries : List (String × FileNode)}
    (isApp : around.tree = ⟨"/srv", .directory [("app", .directory entries)]⟩) :
    checkRoot around "/srv/app" = .ok ["app"] := by
  have expanded : expandHome around.home "/srv/app" = .ok "/srv/app" := by
    have notHome : homeStart? "/srv/app" = none := by decide +kernel
    simp [expandHome, notHome]
  exact checkRoot_directory (by simp) expanded (find?_app isApp around.here)

namespace Analysis

/-- The analysis of a directory, which nobody listens to. -/
def ofDirectory (stages : List Stage) (entries : List (String × FileNode)) : Analysis where
  around :=
    { tree := ⟨"/srv", .directory [("app", .directory entries)]⟩, here := [], home := fun _ => none
      projectType := none, now := 0, analyzedAt := "now", registrations := []
      readYaml := Yaml.Document.ofText }
  overrides := ⟨some { root := "/srv/app" }, some stages⟩
  project := { rootPath := "/srv/app" }
  listener := none
  isCancelled := false
  readings := [.whole 0]

/-- What a path leads to in the report of an analysis. -/
def shown (a : Analysis) (path : List Value.Turn) : Option Value :=
  a.run.result.toOption.bind fun report => (Value.map report).at? path

theorem ofDirectory_comesTo {stages : List Stage} (accepted : orderError? stages = none)
    (entries : List (String × FileNode)) :
    ∃ opened, (ofDirectory stages entries).ComesTo (directoryContext entries) stages opened := by
  refine ⟨_, ["app"], { root := "/srv/app" }, checkRoot_app rfl, rfl, ?_, rfl⟩
  simp [chooseStages, ofDirectory, accepted, bind, Except.bind, pure, Except.pure]

theorem ofDirectory_inspects {stages : List Stage} (accepted : orderError? stages = none)
    (builtin : ∀ stage ∈ stages, stage ∈ builtinStages) {entries : List (String × FileNode)}
    {report : Entries} (returned : (ofDirectory stages entries).run.result = .ok report) :
    (ofDirectory stages entries).Inspects (directoryContext entries) stages report :=
  ⟨ofDirectory_comesTo accepted entries, builtin, returned⟩

theorem shown_of_ok {a : Analysis} {report : Entries} (returned : a.run.result = .ok report)
    (path : List Value.Turn) : a.shown path = (Value.map report).at? path := by
  rw [shown, returned]
  rfl

theorem exists_report_of_shown {a : Analysis} {path : List Value.Turn}
    (present : (a.shown path).isSome = true) : ∃ report, a.run.result = .ok report := by
  cases result : a.run.result with
  | error fault =>
    rw [shown, result] at present
    cases present
  | ok report => exact ⟨report, rfl⟩

end Analysis

end Surveyor
