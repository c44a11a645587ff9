import Surveyor.Inspection.Structure
import Surveyor.Proofs.Quality.Published

/-! # How often a name is reported

The stage gives findings for every project that its snapshot shows (`run_reports`). A name that is
neither an entry point nor in use is reported once for each function and each method that bears it,
and any other name is not reported at all.
-/

namespace Surveyor

/-- Does the finding report an unused function or method of the name? -/
def Issue.reportsUnused (n : String) (issue : Issue) : Bool :=
  (issue.kind == "unused_function" || issue.kind == "unused_method") && issue.name.str? == some n

def Value.reportsUnused (n : String) : Value → Bool
  | .map fields =>
    (fields.lookup "kind" |>.bind Value.str?).any (fun kind =>
        kind == "unused_function" || kind == "unused_method")
      && (fields.lookup "name" |>.bind Value.str?) == some n
  | _ => false

/-- A stage has published findings, and so many of them report an unused function or method of the
name. -/
def ReportsUnused (run : StageRun) (n : String) (times : Nat) : Prop :=
  ∃ fields issues, run.result = .delta [("code_quality", .map fields)]
    ∧ fields.lookup "issues" = some (.list issues)
    ∧ issues.countP (Value.reportsUnused n) = times

def Outline.declaredNames (o : Outline) : List String :=
  o.functions.map (·.name)
    ++ ((o.classes.flatMap (·.methods)).map (·.name)).filter (!isImplicitMethod ·)

/-! ## Published findings -/

theorem lookup_insertNew {entries : Entries} {key other : String} {found : Value} (value : Value)
    (here : entries.lookup key = some found) :
    (Entries.insertNew other value entries).lookup key = some found := by
  unfold Entries.insertNew
  split
  · exact here
  · rw [List.lookup_append, here, Option.some_or]

/-- A detail of a finding never hides one of its fields. -/
theorem exists_publish (fields details : Entries) :
    ∃ entries, Issue.publish fields details = .map entries
      ∧ ∀ key found, fields.lookup key = some found → entries.lookup key = some found := by
  refine ⟨_, rfl, ?_⟩
  induction details generalizing fields with
  | nil => exact fun _ _ here => here
  | cons detail rest inductionHypothesis =>
    intro key found here
    exact inductionHypothesis _ key found (lookup_insertNew detail.2 here)

theorem Issue.reportsUnused_toValue (n : String) (issue : Issue) :
    issue.toValue.reportsUnused n = issue.reportsUnused n := by
  obtain ⟨entries, published, kept⟩ := exists_publish
    [("name", issue.name), ("kind", .str issue.kind), ("severity", .str issue.severity),
      ("file", issue.file), ("line", issue.line), ("tag", .str issue.tag),
      ("description", .str issue.description)] issue.extra
  have kind := kept "kind" (.str issue.kind) rfl
  have name := kept "name" issue.name rfl
  rw [Issue.toValue, published, Value.reportsUnused, kind, name]
  rfl

/-- A stage reports a name one number of times only. -/
theorem ReportsUnused.unique {run : StageRun} {n : String} {times times' : Nat}
    (reports : ReportsUnused run n times) (reports' : ReportsUnused run n times') :
    times = times' := by
  obtain ⟨fields, issues, result, listed, rfl⟩ := reports
  obtain ⟨fields', issues', result', listed', rfl⟩ := reports'
  cases result.symm.trans result'
  cases listed.symm.trans listed'
  rfl

/-! ## Symbols -/

theorem countP_unusedSymbols {symbols : List DeclaredSymbol} (references : References) (n : String)
    (named : ∀ symbol ∈ symbols, ∃ k, symbol.name = .str k)
    (kinds : ∀ symbol ∈ symbols, symbol.kind = .function ∨ symbol.kind = .method) :
    ((symbols.filter fun symbol => isDead references symbol.name.asStr).map unusedSymbol).countP
        (Issue.reportsUnused n)
      = if isDead references n then symbols.countP (fun symbol => symbol.name.str? == some n)
        else 0 := by
  rw [List.countP_map, List.countP_filter]
  have reported : ∀ symbol ∈ symbols,
      (((Issue.reportsUnused n ∘ unusedSymbol) symbol && isDead references symbol.name.asStr) = true ↔
        (symbol.name.str? == some n && isDead references n) = true) := by
    intro symbol member
    obtain ⟨k, hasName⟩ := named symbol member
    have kind : (unusedSymbol symbol).kind = "unused_function"
        ∨ (unusedSymbol symbol).kind = "unused_method" := by
      rcases kinds symbol member with isFunction | isMethod
      · exact .inl (by rw [unusedSymbol, isFunction]; rfl)
      · exact .inr (by rw [unusedSymbol, isMethod]; rfl)
    have kindHolds : ((unusedSymbol symbol).kind == "unused_function"
        || (unusedSymbol symbol).kind == "unused_method") = true := by
      simpa using kind
    have sameName : (unusedSymbol symbol).name = .str k := hasName
    simp only [Function.comp_def, Issue.reportsUnused, kindHolds, sameName, hasName, Value.str?,
      Value.asStr, Option.getD_some, Bool.true_and, Bool.and_eq_true, beq_iff_eq, Option.some.injEq]
    constructor
    · rintro ⟨rfl, dead⟩
      exact ⟨rfl, dead⟩
    · rintro ⟨rfl, dead⟩
      exact ⟨rfl, dead⟩
  rw [List.countP_congr reported]
  by_cases dead : isDead references n = true
  · simp [dead]
  · simp [dead]

namespace Outline

theorem named_functions (o : Outline) :
    ∀ symbol ∈ o.symbols.functions, (∃ k, symbol.name = .str k)
      ∧ (symbol.kind = .function ∨ symbol.kind = .method) := by
  intro symbol member
  obtain ⟨f, -, rfl⟩ := List.mem_map.mp member
  exact ⟨⟨f.name, rfl⟩, .inl rfl⟩

theorem named_methods (o : Outline) :
    ∀ symbol ∈ o.symbols.methods, (∃ k, symbol.name = .str k)
      ∧ (symbol.kind = .function ∨ symbol.kind = .method) := by
  intro symbol member
  simp only [symbols, List.mem_flatMap, List.mem_filterMap, methodSymbol?] at member
  obtain ⟨c, -, m, -, isSymbol⟩ := member
  split at isSymbol
  · cases isSymbol
  · cases isSymbol
    exact ⟨⟨m.name, rfl⟩, .inr rfl⟩

theorem named_classes (o : Outline) :
    ∀ symbol ∈ o.symbols.classes, ∃ k, symbol.name = .str k := by
  intro symbol member
  obtain ⟨c, -, rfl⟩ := List.mem_map.mp member
  exact ⟨c.name, rfl⟩

theorem countP_functions (o : Outline) (n : String) :
    o.symbols.functions.countP (fun symbol => symbol.name.str? == some n)
      = (o.functions.map (·.name)).count n := by
  simp only [symbols, List.countP_map, List.count, Function.comp_def, functionSymbol, Value.str?]
  apply List.countP_congr
  intro f _
  simp

theorem countP_methods (o : Outline) (n : String) :
    o.symbols.methods.countP (fun symbol => symbol.name.str? == some n)
      = (((o.classes.flatMap (·.methods)).map (·.name)).filter (!isImplicitMethod ·)).count n := by
  simp only [symbols, List.countP_flatMap, List.count, List.countP_filter, List.countP_map,
    Function.comp_def, List.countP_filterMap]
  congr 1
  apply List.map_congr_left
  intro c _
  apply List.countP_congr
  intro m _
  unfold methodSymbol?
  cases isImplicitMethod m.name with
  | true => simp
  | false => simp [Value.str?]

end Outline

/-! ## Findings of a project -/

/-- What the stage needs to see of a project: its texts, none of them obfuscated, their published
outlines, and dependencies that can be looked up. -/
structure Shows (snapshot : Value) (sources : List SourceFile) : Prop where
  plain : ∀ f ∈ sources, f.isObfuscated = false
  contents : Snapshot.contents snapshot = .ok (sources.map fun f => (f.path, f.content))
  files : ∃ files, Snapshot.files snapshot = .ok files ∧ Snapshot.obfuscated files = .ok []
  outlines : Snapshot.outlines snapshot
    = .ok (frozenOutlines (ProjectStructure.ofSources sources).outlines)
  dependencies : ∃ dependencies issues,
    Snapshot.partField snapshot "tech_stack" "dependencies" = .ok dependencies
      ∧ unusedDependencies dependencies (sources.map fun f => (f.path, f.content)) = .ok issues

def declaredNames (sources : List SourceFile) : List String :=
  (ProjectStructure.ofSources sources).outlines.flatMap (·.declaredNames)

theorem count_declared (outlines : List Outline) (n : String) :
    ((byPath outlines).flatMap (·.symbols.functions)).countP (fun s => s.name.str? == some n)
        + ((byPath outlines).flatMap (·.symbols.methods)).countP (fun s => s.name.str? == some n)
      = (outlines.flatMap (·.declaredNames)).count n := by
  -- The order by path does not change how often a name is declared.
  have sorted : (byPath outlines).Perm outlines := List.mergeSort_perm _ _
  rw [← (sorted.flatMap_right (·.declaredNames)).count_eq n]
  induction byPath outlines with
  | nil => rfl
  | cons o rest inductionHypothesis =>
    simp only [List.flatMap_cons, List.countP_append, List.count_append, Outline.countP_functions,
      Outline.countP_methods, Outline.declaredNames] at inductionHypothesis ⊢
    omega

namespace QualityFindings

/-- The findings of the other categories never report an unused function or method. -/
theorem countP_issues {i : QualityInput} {references : References} {settings : Settings}
    {findings : QualityFindings} (found : ofInput i references settings = .ok findings) (n : String) :
    findings.issues.countP (Issue.reportsUnused n)
      = findings.unusedFunctions.countP (Issue.reportsUnused n)
        + findings.unusedMethods.countP (Issue.reportsUnused n) := by
  have others : findings.otherFindings.countP (Issue.reportsUnused n) = 0 := by
    rw [List.countP_eq_zero]
    intro issue member
    obtain ⟨notFunction, notMethod⟩ := kind_of_mem_otherFindings found member
    simp [Issue.reportsUnused, notFunction, notMethod]
  rw [findings.issues_perm.countP_eq, List.countP_append, List.countP_append, others]
  rfl

def inputOf (sources : List SourceFile) (dependencies : Value) : QualityInput where
  contents := sources.map fun f => (f.path, f.content)
  obfuscated := []
  outlines := frozenOutlines (ProjectStructure.ofSources sources).outlines
  dependencies := dependencies
  declared :=
    ⟨(byPath (ProjectStructure.ofSources sources).outlines).flatMap (·.symbols.functions),
      (byPath (ProjectStructure.ofSources sources).outlines).flatMap (·.symbols.methods),
      (byPath (ProjectStructure.ofSources sources).outlines).flatMap (·.symbols.classes)⟩

theorem ofSnapshot_eq {snapshot : Value} {sources : List SourceFile} (shows_ : Shows snapshot sources) :
    ∃ dependencies issues, QualityInput.ofSnapshot snapshot = .ok (inputOf sources dependencies)
      ∧ Surveyor.unusedDependencies dependencies (sources.map fun f => (f.path, f.content))
        = .ok issues := by
  obtain ⟨files, hasFiles, plain⟩ := shows_.files
  obtain ⟨dependencies, issues, hasDependencies, found⟩ := shows_.dependencies
  refine ⟨dependencies, issues, ?_, found⟩
  rw [QualityInput.ofSnapshot, shows_.contents, hasFiles, shows_.outlines, hasDependencies]
  simp only [bind, Except.bind, plain, ofOutlines_frozen, pure, Except.pure]
  rfl

theorem exists_ofInput_inputOf (sources : List SourceFile) {dependencies : Value}
    {dependencyIssues : List Issue}
    (foundDependencies : Surveyor.unusedDependencies dependencies
      (sources.map fun f => (f.path, f.content)) = .ok dependencyIssues)
    (references : References) {settings : Settings} (numbers : settings.NumbersGiven) :
    ∃ findings, ofInput (inputOf sources dependencies) references settings = .ok findings
      ∧ ∀ n, findings.issues.countP (Issue.reportsUnused n)
        = if isDead references n then (declaredNames sources).count n else 0 := by
  -- What is published has texts as names, so no search for an unused symbol fails.
  have functionsNamed : ∀ symbol ∈ (inputOf sources dependencies).declared.functions,
      (∃ k, symbol.name = .str k) ∧ (symbol.kind = .function ∨ symbol.kind = .method) := by
    intro symbol member
    obtain ⟨o, -, inOutline⟩ := List.mem_flatMap.mp member
    exact o.named_functions symbol inOutline
  have methodsNamed : ∀ symbol ∈ (inputOf sources dependencies).declared.methods,
      (∃ k, symbol.name = .str k) ∧ (symbol.kind = .function ∨ symbol.kind = .method) := by
    intro symbol member
    obtain ⟨o, -, inOutline⟩ := List.mem_flatMap.mp member
    exact o.named_methods symbol inOutline
  have classesNamed : ∀ symbol ∈ (inputOf sources dependencies).declared.classes,
      ∃ k, symbol.name = .str k := by
    intro symbol member
    obtain ⟨o, -, inOutline⟩ := List.mem_flatMap.mp member
    exact o.named_classes symbol inOutline
  obtain ⟨imports, foundImports⟩ := exists_unusedImports
    (ProjectStructure.ofSources sources).outlines (sources.map fun f => (f.path, f.content))
  obtain ⟨large, foundLarge⟩ := exists_largeFunctions
    (ProjectStructure.ofSources sources).outlines (sources.map fun f => (f.path, f.content))
  have functionsFound := unreferenced_eq references fun symbol member => (functionsNamed symbol member).1
  have methodsFound := unreferenced_eq references fun symbol member => (methodsNamed symbol member).1
  have classesFound := unreferenced_eq references classesNamed
  obtain ⟨findings, found, functions, methods⟩ := exists_ofInput (i := inputOf sources dependencies)
    numbers (by rw [unusedSymbols, functionsFound]; rfl) (by rw [unusedSymbols, methodsFound]; rfl)
    (by rw [Surveyor.unusedClasses, classesFound]; rfl) foundImports foundDependencies foundLarge
  refine ⟨findings, found, fun n => ?_⟩
  rw [countP_issues found, functions, methods,
    countP_unusedSymbols references n (fun symbol member => (functionsNamed symbol member).1)
      fun symbol member => (functionsNamed symbol member).2,
    countP_unusedSymbols references n (fun symbol member => (methodsNamed symbol member).1)
      fun symbol member => (methodsNamed symbol member).2]
  have counted := count_declared (ProjectStructure.ofSources sources).outlines n
  by_cases dead : isDead references n = true
  · rw [if_pos dead, if_pos dead, if_pos dead]
    exact counted
  · rw [if_neg dead, if_neg dead, if_neg dead]

theorem reportsUnused_toValue (findings : QualityFindings) (steps : List Step) (n : String) :
    ReportsUnused ⟨steps, .delta [("code_quality", findings.toValue)]⟩ n
      (findings.issues.countP (Issue.reportsUnused n)) := by
  refine ⟨_, findings.issues.map Issue.toValue, rfl, rfl, ?_⟩
  rw [List.countP_map]
  apply List.countP_congr
  intro issue _
  rw [Function.comp_apply, Issue.reportsUnused_toValue]

/-- The stage gives findings. A name is reported as often as it is declared if it is dead, and not at
all otherwise. -/
theorem run_reports {snapshot : Value} {sources : List SourceFile} (shows_ : Shows snapshot sources)
    {context : StageContext} (numbers : context.settings.NumbersGiven) :
    ∃ cut, context.settings.scanCharLimit = .ok cut
      ∧ ∀ n, ReportsUnused (run context snapshot) n
        (if isDead (References.ofFiles
            (Contents.filled (sources.map fun f => (f.path, f.content)) []) cut) n
          then (declaredNames sources).count n else 0) := by
  obtain ⟨cut, limited⟩ := numbers.limit
  obtain ⟨dependencies, issues, seen, foundDependencies⟩ := ofSnapshot_eq shows_
  have files : (inputOf sources dependencies).referenceFiles
      = Contents.filled (sources.map fun f => (f.path, f.content)) [] := rfl
  obtain ⟨findings, found, counts⟩ := exists_ofInput_inputOf sources foundDependencies
    (References.ofFiles (Contents.filled (sources.map fun f => (f.path, f.content)) []) cut) numbers
  -- The interval has to be a number but does not change what is found.
  obtain ⟨every, chosen⟩ := Settings.exists_intervalFor numbers.interval
    (inputOf sources dependencies).referenceFiles.length
  obtain ⟨everyComment, chosenLater⟩ := Settings.exists_intervalFor numbers.interval
    (inputOf sources dependencies).commentFiles.length
  have collected : (inputOf sources dependencies).references context.settings
      = .ok (References.ofFiles (Contents.filled (sources.map fun f => (f.path, f.content)) []) cut) := by
    rw [QualityInput.references, limited, References.collect_eq_ofFiles, files]
  have result := run_of_found seen collected chosen found chosenLater
  refine ⟨cut, limited, fun n => ?_⟩
  rw [result, ← counts n]
  exact reportsUnused_toValue findings _ n

end QualityFindings

end Surveyor
