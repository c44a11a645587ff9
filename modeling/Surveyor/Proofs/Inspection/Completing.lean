import Surveyor.Proofs.Catalog.Inventory
import Surveyor.Proofs.Inspection.Projects
import Surveyor.Proofs.Inspection.Sites
import Surveyor.Proofs.Quality.Growth
import Surveyor.Proofs.Stack.Frameworks

/-! # Stages that return on what earlier ones leave

A stage that reads what built-in stages left does not meet a value of the wrong kind. The profile, the
outlines, the findings and the places of a project are always given; the survey and the score may fail,
but then with a failure that has a name (`ends_of_builtin`).
-/

namespace Surveyor

/-! ## Records -/

section

variable {records : List FileRecord} {files : Value}
  (members : files.members = .ok (records.map fun r => r.toValue.freeze))

include members

theorem exists_languages : ∃ shares, LanguageShare.ofFiles files = .ok shares := by
  have each : ∀ r ∈ records, ∃ lines, LanguageShare.linesOf? r.toValue.freeze = .ok lines := by
    intro r _
    have extension : r.toValue.freeze.field "extension" = .ok (.str r.extension) := rfl
    have lines : r.toValue.freeze.field "lines" = .ok (.int r.lines) := rfl
    have asKey : ∃ name, ((Value.str r.extension).orElse (.str "")).asKey = .ok (.str name) := by
      unfold Value.orElse
      split
      · exact ⟨_, rfl⟩
      · exact ⟨_, rfl⟩
    have whole : ∃ n, ((Value.int r.lines).orElse (.int 0)).whole = .ok n := by
      unfold Value.orElse
      split
      · exact ⟨_, rfl⟩
      · exact ⟨_, rfl⟩
    obtain ⟨name, asKey⟩ := asKey
    obtain ⟨n, whole⟩ := whole
    simp only [LanguageShare.linesOf?, extension, lines, asKey, whole, bind, Except.bind, pure,
      Except.pure]
    split
    · exact ⟨_, rfl⟩
    · exact ⟨_, rfl⟩
  obtain ⟨lines, read⟩ : ∃ lines, (records.map fun r => r.toValue.freeze).mapM LanguageShare.linesOf?
      = .ok lines := by
    rw [List.mapM_map]
    exact exists_mapM_eq_ok each
  simp only [LanguageShare.ofFiles, members, bind, Except.bind, pure, Except.pure] at read ⊢
  rw [read]
  exact ⟨_, rfl⟩

theorem exists_fileSummary : ∃ summary, FileSummary.ofFiles files = .ok summary := by
  obtain ⟨shares, found⟩ := exists_languages members
  have names : (records.map fun r => r.toValue.freeze).mapM
      (fun file => do (← file.entry "name").asKey) = .ok (records.map fun r => .str r.name) := by
    rw [List.mapM_map]
    exact mapM_eq_ok_map fun r _ => rfl
  simp only [FileSummary.ofFiles, obfuscated_frozen members, members, found, bind, Except.bind, pure,
    Except.pure] at names ⊢
  rw [names]
  exact ⟨_, rfl⟩

/-- The paths of records are texts, and so they can be sorted. -/
theorem exists_sortedPaths : ∃ sorted texts, sortedPaths files = .ok sorted
    ∧ sorted.mapM (·.textFor "replace") = .ok texts := by
  have paths : (records.map fun r => r.toValue.freeze).mapM (·.entry "path")
      = .ok (records.map fun r => .str r.path) := by
    rw [List.mapM_map]
    exact mapM_eq_ok_map fun r _ => rfl
  have named : ∀ path ∈ records.map fun r => Value.str r.path, ∃ name, id path = .str name := by
    intro path member
    obtain ⟨r, -, rfl⟩ := List.mem_map.mp member
    exact ⟨r.path, rfl⟩
  have sorted := Value.sortedBy_eq_mergeSort named
  obtain ⟨texts, read⟩ := exists_mapM_eq_ok fun path member => by
    obtain ⟨name, isName⟩ := named path ((Value.sortedBy_perm sorted).mem_iff.mp member)
    exact (⟨name, by rw [show path = .str name from isName]; rfl⟩ :
      ∃ text, path.textFor "replace" = .ok text)
  refine ⟨_, texts, ?_, read⟩
  simp only [sortedPaths, members, bind, Except.bind] at paths ⊢
  rw [paths]
  exact sorted

end

/-! ## Places -/

variable {context : StageContext} {invoked : List (String × Value)} {stages : List Stage}
  {state : Entries} {snapshot : Value} {records : List FileRecord}

/-- The places of a project are found, under its type in lower case. -/
theorem Locations.exists_ofSnapshot (shows_ : ShowsRecords snapshot records) (type : String) :
    ∃ found, ofSnapshot (.str type) snapshot = .ok found
      ∧ found.projectType = lower (if type.isEmpty then "auto" else type) := by
  obtain ⟨files, hasFiles, members⟩ := shows_.files
  obtain ⟨sorted, texts, sortedAll, read⟩ := exists_sortedPaths members
  have typed : ((Value.str type).orElse (.str "auto")).textFor "lower"
      = .ok (if type.isEmpty then "auto" else type) := by
    by_cases empty : type.isEmpty = true
    · simp [Value.orElse, Value.isGiven, empty, Value.textFor]
    · simp [Value.orElse, Value.isGiven, empty, Value.textFor]
  refine ⟨ofProject (if type.isEmpty then "auto" else type) texts (contentsOf records), ?_, ?_⟩
  · simp only [ofSnapshot, hasFiles, shows_.contents, sortedAll, typed, bind, Except.bind, pure,
      Except.pure] at read ⊢
    rw [read]
  · unfold ofProject
    by_cases empty : type.isEmpty = true
    · simp only [empty, ↓reduceIte]
      rfl
    · simp [empty]

/-! ## Outlines -/

theorem ProjectStructure.exists_delta (numbers : context.settings.NumbersGiven)
    (shows_ : ShowsRecords snapshot records) :
    ∃ delta, (run context snapshot).result = .delta delta := by
  obtain ⟨every, chosen⟩ := Settings.exists_intervalFor numbers.interval
    (records.filterMap (FileRecord.source? (contentsOf records))).length
  rw [run_of_read shows_.sourcesOf_eq chosen]
  exact ⟨_, rfl⟩

/-! ## Profiles -/

theorem exists_readSnapshot (shows_ : ShowsRecords snapshot records) :
    ∃ summary, StackProfile.readSnapshot snapshot = .ok (summary, contentsOf records) := by
  obtain ⟨files, hasFiles, members⟩ := shows_.files
  obtain ⟨summary, summed⟩ := exists_fileSummary members
  simp only [StackProfile.readSnapshot, hasFiles, shows_.contents, summed, bind, Except.bind, pure,
    Except.pure]
  exact ⟨summary, rfl⟩

theorem StackProfile.exists_hint (framework : Option String) :
    ∃ hint, hintOf (.ofOption framework) = .ok hint := by
  cases framework with
  | none => exact ⟨none, rfl⟩
  | some name =>
    unfold hintOf
    split
    · exact ⟨some name, rfl⟩
    · exact ⟨none, rfl⟩

theorem StackProfile.exists_delta (shows_ : ShowsRecords snapshot records)
    {framework : Option String} (hinted : context.project.framework = .ofOption framework) :
    ∃ delta, (run context snapshot).result.delta? = some delta := by
  obtain ⟨summary, read⟩ := exists_readSnapshot shows_
  obtain ⟨hint, hintRead⟩ := exists_hint framework
  rw [← hinted] at hintRead
  rw [result_of_readSnapshot read hintRead]
  exact ⟨_, rfl⟩

/-! ## Findings -/

theorem exists_unusedSymbols {symbols : List DeclaredSymbol} (references : References)
    (named : ∀ symbol ∈ symbols, ∃ n, symbol.name = .str n) :
    ∃ found, unusedSymbols symbols references = .ok found := by
  rw [unusedSymbols, unreferenced_eq references named]
  exact ⟨_, rfl⟩

theorem exists_unusedClasses {symbols : List DeclaredSymbol} (references : References)
    (dynamicLoading : Value) (named : ∀ symbol ∈ symbols, ∃ n, symbol.name = .str n) :
    ∃ found, unusedClasses symbols references dynamicLoading = .ok found := by
  rw [unusedClasses, unreferenced_eq references named]
  exact ⟨_, rfl⟩

/-- Findings are given whatever the records, outlines and dependencies are. -/
theorem QualityFindings.exists_delta (took : Took context invoked state .qualityScan snapshot)
    (numbers : context.settings.NumbersGiven) (catalogued : Catalogued context state records)
    {outlines : List Outline} {dependencies : List Value}
    (outlined : Lists state "code_structure" "files" (outlines.map Outline.toValue))
    (listed : Lists state "tech_stack" "dependencies" dependencies)
    (declared : ∀ entry ∈ dependencies, IsDeclared records entry) :
    ∃ delta, (run context snapshot).result.delta? = some delta := by
  have shows_ := took.showsRecords catalogued (by simp [Stage.qualityScan]) (by simp [Stage.qualityScan])
  obtain ⟨files, hasFiles, members⟩ := shows_.files
  have seenOutlines : Snapshot.outlines snapshot = _ :=
    took.partField_eq outlined (by simp [Stage.qualityScan]) (by decide)
  have seenDependencies := took.partField_eq listed (by simp [Stage.qualityScan]) (by decide)
  -- What is drawn from outlines is drawn from their members, given or not.
  have sameOutlines : outlinesByPath ((Value.list (outlines.map Outline.toValue)).freeze.orElse (.list []))
      = outlinesByPath (frozenOutlines outlines) := by
    rw [outlinesByPath_of_members (members_frozen _), outlinesByPath_frozen]
  have symbols := ofOutlines_frozen outlines
  obtain ⟨imports, foundImports⟩ := exists_unusedImports outlines (contentsOf records)
  obtain ⟨large, foundLarge⟩ := exists_largeFunctions outlines (contentsOf records)
  rw [DeclaredSymbols.ofOutlines, ← sameOutlines] at symbols
  rw [Surveyor.unusedImports, ← sameOutlines] at foundImports
  rw [Surveyor.largeFunctions, ← sameOutlines] at foundLarge
  obtain ⟨ofDependencies, foundDependencies⟩ := exists_unusedDependencies declared (contentsOf records)
  have named : ∀ (pick : Outline → List DeclaredSymbol),
      (∀ o, ∀ symbol ∈ pick o, ∃ n, symbol.name = .str n) →
        ∀ symbol ∈ (byPath outlines).flatMap pick, ∃ n, symbol.name = .str n := by
    intro pick areNamed symbol member
    obtain ⟨o, -, inOutline⟩ := List.mem_flatMap.mp member
    exact areNamed o symbol inOutline
  rw [exists_delta_iff numbers]
  let i : QualityInput := ⟨contentsOf records, (records.filter (·.isObfuscated)).map (·.path),
    (Value.list (outlines.map Outline.toValue)).freeze.orElse (.list []),
    (Value.list dependencies).freeze.orElse (.list []),
    ⟨(byPath outlines).flatMap (·.symbols.functions), (byPath outlines).flatMap (·.symbols.methods),
      (byPath outlines).flatMap (·.symbols.classes)⟩⟩
  have read : QualityInput.ofSnapshot snapshot = .ok i := by
    simp only [QualityInput.ofSnapshot, shows_.contents, hasFiles, seenOutlines, seenDependencies,
      obfuscated_frozen members, DeclaredSymbols.ofOutlines, bind, Except.bind, pure, Except.pure]
      at symbols ⊢
    rw [symbols]
  obtain ⟨references, collected⟩ := exists_references numbers i
  obtain ⟨functions, foundFunctions⟩ := exists_unusedSymbols references
    (named (·.symbols.functions) fun o symbol member => (o.named_functions symbol member).1)
  obtain ⟨methods, foundMethods⟩ := exists_unusedSymbols references
    (named (·.symbols.methods) fun o symbol member => (o.named_methods symbol member).1)
  obtain ⟨classes, foundClasses⟩ := exists_unusedClasses references
    (.bool (Surveyor.hasDynamicLoading i.contents)) (named (·.symbols.classes) Outline.named_classes)
  refine ⟨i, references, read, collected, ?_⟩
  obtain ⟨f, found, -⟩ := exists_ofInput (i := i) numbers foundFunctions foundMethods foundClasses
    foundImports foundDependencies foundLarge
  exact ⟨f, found⟩

/-- Where findings are looked for, they are in the state. -/
theorem Settled.exists_findings (settled : Settled context invoked stages state)
    (builtin : ∀ stage ∈ stages, stage ∈ builtinStages) (numbers : context.settings.NumbersGiven)
    (scans : .qualityScan ∈ stages) : ∃ found, state.lookup "code_quality" = some found := by
  obtain ⟨records, catalogued⟩ := settled.exists_catalogued builtin
  obtain ⟨outlines, outlined, -⟩ := settled.exists_outlines builtin catalogued
  obtain ⟨dependencies, depends, declared⟩ := settled.exists_dependencies builtin catalogued
  obtain ⟨snapshot, took⟩ := settled.took .qualityScan scans
  obtain ⟨delta, returned⟩ :=
    QualityFindings.exists_delta took numbers catalogued outlined depends declared
  obtain ⟨_, _, findings, -, -, rfl⟩ := QualityFindings.exists_of_delta returned
  have left := took.left "code_quality" (by simp [Stage.qualityScan])
  rw [show (Stage.qualityScan.run context snapshot).result.delta? = _ from returned] at left
  exact ⟨_, left⟩

/-! ## Catalogues -/

/-- What stages are handed if the project is described by texts and its settings are the standard ones
or those of a file. -/
structure StageContext.Described (context : StageContext) : Prop where
  numbers : context.settings.NumbersGiven
  excludePaths : ∃ names, context.settings.excludePaths = .strings names
  excludedFolders : ∃ names, context.project.excludedFolders = .strings names
  projectType : ∃ type, context.project.projectType = .str type
  framework : ∃ name, context.project.framework = .ofOption name

def StageContext.HasRoot (context : StageContext) : Prop :=
  ∃ place entries, (context.tree.names? [] context.project.rootPath).bind context.tree.find?
    = some (place, .directory entries)

namespace Cataloguing

def met (context : StageContext) : List FileRecord :=
  match preparation context, (context.tree.names? [] context.project.rootPath).bind context.tree.find? with
  | .ok (_, patterns), some (place, .directory entries) =>
    (Folder.ofDirectory context.tree ⟨patterns, context.settings.maxFileSize⟩ place entries).records
  | _, _ => []

theorem exists_preparation (described : context.Described) :
    ∃ interval patterns, preparation context = .ok (interval, patterns) := by
  obtain ⟨interval, given⟩ := described.numbers.interval
  obtain ⟨ofSettings, paths⟩ := described.excludePaths
  obtain ⟨ofProject, folders⟩ := described.excludedFolders
  simp only [preparation, given, paths, folders]
  exact ⟨interval, _, rfl⟩

/-- A number of days is a span of time up to a bound in size, and beyond it none. -/
theorem recentSince_int (now days : Int) :
    (days.natAbs ≤ 999999999 ∧ ∃ recent, Catalog.recentSince now (.int days) = .ok recent)
      ∨ (¬ days.natAbs ≤ 999999999
        ∧ Catalog.recentSince now (.int days) = .error (.daysOutOfRange days)) := by
  have whole : (days * Catalog.microsecondsPerDay).fdiv Catalog.microsecondsPerDay = days :=
    Int.mul_fdiv_cancel _ (by decide)
  have total : Catalog.microsecondsOfDays (.int days) = .ok (days * Catalog.microsecondsPerDay) := rfl
  have inRange_iff : days.natAbs ≤ 999999999 ↔ (-999999999 ≤ days && days ≤ 999999999) = true := by
    simp only [Bool.and_eq_true, decide_eq_true_eq]
    omega
  simp only [Catalog.recentSince, total, Except.mapError, bind, Except.bind, whole]
  rw [inRange_iff]
  cases (-999999999 ≤ days && days ≤ 999999999 : Bool) with
  | true => exact .inl ⟨rfl, _, rfl⟩
  | false => exact .inr ⟨Bool.false_ne_true, rfl⟩

/-- Where there is a directory, the survey gives a catalogue, or it meets a file that was changed
outside of the calendar, or the span of recent days is too long. -/
theorem run_cases (described : context.Described) (root : context.HasRoot) :
    (context.settings.recentDays.natAbs ≤ 999999999
        ∧ (∀ record ∈ met context, Timestamp.isDated record.time = true)
        ∧ ∃ catalog, (run context).result = .delta (delta catalog))
      ∨ ((¬ context.settings.recentDays.natAbs ≤ 999999999
          ∨ ∃ record ∈ met context, Timestamp.isDated record.time = false)
        ∧ ∃ failure, (run context).result = .failed failure ∧ failure.kind ≠ "") := by
  obtain ⟨interval, patterns, prepared⟩ := exists_preparation described
  obtain ⟨place, entries, isDirectory⟩ := root
  -- The span of recent days is looked at first, then the dates of the files that are met.
  rcases recentSince_int context.now context.settings.recentDays with
    ⟨inRange, recent, span⟩ | ⟨tooLong, noSpan⟩
  · have areMet : ∀ record, record ∈ met context ↔ record ∈ (Catalog.ofDirectory context.tree
        ⟨patterns, context.settings.maxFileSize⟩ recent place entries).files := by
      intro record
      simp [met, prepared, isDirectory, Catalog.ofDirectory]
    rcases Catalog.survey_of_isDirectory isDirectory span with
      ⟨dated, surveyed⟩ | ⟨record, listed, undated, before, failed⟩
    · left
      refine ⟨inRange, fun record member => dated record ((areMet record).mp member), ?_⟩
      simp only [run, prepared, surveyed]
      exact ⟨_, rfl⟩
    · right
      refine ⟨.inr ⟨record, (areMet record).mpr listed, undated⟩, ?_⟩
      simp [run, prepared, failed, failure]
  · right
    have failed : Catalog.survey context.tree [] context.project.rootPath
        ⟨patterns, context.settings.maxFileSize⟩ (.int context.settings.recentDays) context.now
        = .error (.daysOutOfRange context.settings.recentDays) := by
      simp [Catalog.survey, isDirectory, noSpan]
    refine ⟨.inl tooLong, ?_⟩
    simp [run, prepared, failed, failure]

end Cataloguing

/-! ## Stages that end -/

theorem StageFailure.kind_ofFault (fault : ValueFault) : (ofFault fault).kind ≠ "" := by
  cases fault <;> simp [ofFault]

/-- The stage returns, or it fails with a failure of a kind that has a name. -/
inductive StageResult.Ends : StageResult → Prop
  | returns (delta : Entries) : Ends (.delta delta)
  | fails {failure : StageFailure} (named : failure.kind ≠ "") : Ends (.failed failure)

theorem StageRun.ends_ofResult (result : Except ValueFault Entries) :
    (ofResult result).result.Ends := by
  cases result with
  | ok delta => exact .returns delta
  | error fault => exact .fails (StageFailure.kind_ofFault fault)

theorem StackProfile.ends_run (context : StageContext) (snapshot : Value) :
    (run context snapshot).result.Ends := by
  unfold run
  split
  · exact .fails (StageFailure.kind_ofFault _)
  · simp only [runWith]
    split
    · exact .fails (StageFailure.kind_ofFault _)
    · exact .returns _

theorem ProjectStructure.ends_run (context : StageContext) (snapshot : Value) :
    (run context snapshot).result.Ends := by
  simp only [run]
  split
  · exact .fails (StageFailure.kind_ofFault _)
  · exact .returns _

theorem QualityFindings.ends_run (context : StageContext) (snapshot : Value) :
    (run context snapshot).result.Ends := by
  simp only [run]
  split
  · exact .fails (StageFailure.kind_ofFault _)
  · split
    · exact .fails (StageFailure.kind_ofFault _)
    · exact .returns _

section

variable {stage : Stage}

theorem ends_of_builtin (described : context.Described) (root : context.HasRoot)
    (builtin : stage ∈ builtinStages) (snapshot : Value) : (stage.run context snapshot).result.Ends := by
  simp only [builtinStages, List.mem_cons, List.not_mem_nil, or_false] at builtin
  rcases builtin with rfl | rfl | rfl | rfl | rfl | rfl
  · -- Only where there is no directory does the survey end the analysis.
    rcases Cataloguing.run_cases described root with ⟨-, -, catalog, returned⟩ | ⟨-, failure, failed, named⟩
    · rw [show (Stage.cataloguing.run context snapshot).result = _ from returned]
      exact .returns _
    · rw [show (Stage.cataloguing.run context snapshot).result = _ from failed]
      exact .fails named
  · exact StackProfile.ends_run context snapshot
  · exact ProjectStructure.ends_run context snapshot
  · exact QualityFindings.ends_run context snapshot
  · exact StageRun.ends_ofResult _
  · exact StageRun.ends_ofResult _

theorem ordinary_of_builtin (described : context.Described) (root : context.HasRoot)
    (builtin : stage ∈ builtinStages) (snapshot : Value) :
    (stage.run context snapshot).result.IsOrdinary := by
  cases ended : (stage.run context snapshot).result with
  | delta entries =>
    have returned : (stage.run context snapshot).result.delta? = some entries := by
      rw [ended]
      rfl
    have tidy : stage.Tidy context := tidy_of_builtin builtin
    rw [StageResult.IsOrdinary, keys_of_builtin builtin returned]
    exact tidy.noRecord
  | failed failure =>
    have ends := ends_of_builtin described root builtin snapshot
    rw [ended] at ends
    cases ends with
    | fails named => exact named
  | noDelta | refused _ | cancelled _ =>
    have ends := ends_of_builtin described root builtin snapshot
    rw [ended] at ends
    cases ends

end

end Surveyor
