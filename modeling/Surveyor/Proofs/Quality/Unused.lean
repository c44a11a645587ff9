import Surveyor.Proofs.Quality.Origins
import Std.Data.HashSet.Lemmas

/-! # What is reported as unused

A symbol is reported exactly if its name is neither an entry point nor among the names in use
(`mem_unusedSymbols`), and a finding of the other categories never has the kind of an unused function
or method (`kind_of_mem_otherFindings`).
-/

namespace Surveyor

/-! ## Names in use -/

theorem References.mem_foldl_insertMany {files : Contents} {limit : Option Int} {start : References}
    {n : String} :
    n ∈ files.foldl
        (fun names file => names.insertMany (fileReferences (scannedText file.2 limit))) start ↔
      n ∈ start ∨ ∃ file ∈ files, n ∈ fileReferences (scannedText file.2 limit) := by
  induction files generalizing start with
  | nil => simp
  | cons file rest inductionHypothesis =>
    rw [List.foldl_cons, inductionHypothesis, Std.HashSet.mem_insertMany_list]
    simp [or_assoc]

theorem References.mem_ofFiles {files : Contents} {limit : Option Int} {n : String} :
    n ∈ ofFiles files limit ↔ ∃ file ∈ files, n ∈ fileReferences (scannedText file.2 limit) := by
  rw [ofFiles, mem_foldl_insertMany]
  simp

theorem References.eq_ofFiles_of_collect {files : Contents}
    {limit : Except ValueFault (Option Int)} {references : References}
    (collected : collect files limit = .ok references) (filled : files ≠ []) :
    ∃ cut, limit = .ok cut ∧ references = ofFiles files cut := by
  rw [collect, if_neg (by simpa using filled), bind_eq_ok] at collected
  obtain ⟨cut, limited, same⟩ := collected
  exact ⟨cut, limited, (pure_eq_ok.mp same).symm⟩

theorem References.collect_eq_ofFiles (files : Contents) (cut : Option Int) :
    collect files (.ok cut) = .ok (ofFiles files cut) := by
  cases files with
  | nil => rfl
  | cons file rest => rfl

/-! ## Symbols -/

theorem isUnused_str (references : References) (n : String) :
    isUnused references (.str n) = .ok (!isEntryPoint n && !references.contains n) := rfl

theorem mem_unusedSymbols {symbols : List DeclaredSymbol} {references : References}
    {issues : List Issue} (found : unusedSymbols symbols references = .ok issues) {issue : Issue}
    (member : issue ∈ issues) :
    ∃ symbol ∈ symbols, issue = unusedSymbol symbol ∧ isUnused references symbol.name = .ok true := by
  simp only [unusedSymbols, unreferenced, bind_eq_ok, pure_eq_ok] at found
  obtain ⟨kept, ⟨marked, markedAll, rfl⟩, rfl⟩ := found
  simp only [List.mem_map, List.mem_filter] at member
  obtain ⟨symbol, ⟨⟨_, mark⟩, ⟨inMarked, isMarked⟩, rfl⟩, rfl⟩ := member
  obtain ⟨source, inSymbols, same⟩ := exists_of_mem_mapM markedAll inMarked
  simp only [bind_eq_ok, pure_eq_ok, Prod.mk.injEq] at same
  obtain ⟨_, unused, rfl, rfl⟩ := same
  refine ⟨source, inSymbols, rfl, ?_⟩
  rw [unused]
  exact congrArg Except.ok isMarked

/-- Neither an entry point nor in use. -/
def isDead (references : References) (n : String) : Bool :=
  !isEntryPoint n && !references.contains n

theorem unreferenced_eq {symbols : List DeclaredSymbol} (references : References)
    (named : ∀ symbol ∈ symbols, ∃ n, symbol.name = .str n) :
    unreferenced symbols references
      = .ok (symbols.filter fun symbol => isDead references symbol.name.asStr) := by
  have marked : symbols.mapM (fun symbol => do return (symbol, ← isUnused references symbol.name))
      = .ok (symbols.map fun symbol => (symbol, isDead references symbol.name.asStr)) := by
    refine mapM_eq_ok_map fun symbol member => ?_
    obtain ⟨n, hasName⟩ := named symbol member
    rw [hasName, isUnused_str]
    rfl
  rw [unreferenced, marked]
  simp only [bind, Except.bind, pure, Except.pure, List.filter_map, List.map_map, Function.comp_def,
    List.map_id']

/-! ## The findings are given -/

structure Settings.NumbersGiven (settings : Settings) : Prop where
  limit : ∃ cut, settings.scanCharLimit = .ok cut
  interval : ∃ every, settings.progressInterval = .ok every
  commentLines : ∃ least, settings.deadCommentMinLines = .ok least
  threshold : ∃ least, settings.complexityThreshold = .ok least

/-- Where an interval of reports is given, there is one for any number of files. -/
theorem Settings.exists_intervalFor {settings : Settings}
    (given : ∃ every, settings.progressInterval = .ok every) (files : Nat) :
    ∃ every, settings.intervalFor files = .ok every := by
  unfold intervalFor
  split
  · exact ⟨1, rfl⟩
  · exact given

theorem exists_commentedCode {minLines : Except ValueFault Int} (given : ∃ least, minLines = .ok least)
    (path content : String) : ∃ issues, commentedCode path content minLines = .ok issues := by
  obtain ⟨least, rfl⟩ := given
  unfold commentedCode
  split
  · exact ⟨_, rfl⟩
  · exact ⟨_, rfl⟩

theorem exists_complexity {threshold : Except ValueFault Int} {limit : Except ValueFault (Option Int)}
    (givenThreshold : ∃ least, threshold = .ok least) (givenLimit : ∃ cut, limit = .ok cut)
    (contents : Contents) (skip : List String) :
    ∃ records, ComplexityRecord.findAll contents threshold skip limit = .ok records := by
  obtain ⟨least, rfl⟩ := givenThreshold
  obtain ⟨cut, rfl⟩ := givenLimit
  unfold ComplexityRecord.findAll
  split
  · exact ⟨_, rfl⟩
  · exact ⟨_, rfl⟩

namespace QualityFindings

def otherFindings (f : QualityFindings) : List Issue :=
  f.unusedClasses ++ f.unusedImports ++ f.unusedDependencies ++ f.largeFunctions ++ f.commentedCode

theorem issues_perm (f : QualityFindings) :
    f.issues.Perm (f.unusedFunctions ++ f.unusedMethods ++ f.otherFindings) := by
  have all : f.categories.flatMap (·.2) = f.unusedFunctions ++ f.unusedMethods ++ f.otherFindings := by
    simp [categories, otherFindings]
  rw [← all]
  exact List.mergeSort_perm _ _

theorem kind_of_mem_otherFindings {i : QualityInput} {references : References} {settings : Settings}
    {findings : QualityFindings} (found : ofInput i references settings = .ok findings)
    {issue : Issue} (member : issue ∈ findings.otherFindings) :
    issue.kind ≠ "unused_function" ∧ issue.kind ≠ "unused_method" := by
  simp only [ofInput, bind_eq_ok, pure_eq_ok] at found
  obtain ⟨functions, -, methods, -, classes, foundClasses, imports, foundImports, dependencies,
    foundDependencies, large, foundLarge, comments, foundComments, complexity, -, rfl⟩ := found
  simp only [otherFindings, List.mem_append] at member
  rcases member with (((inClasses | inImports) | inDependencies) | inLarge) | inComments
  · obtain ⟨symbol, -, rfl⟩ := exists_of_mem_unusedClasses foundClasses inClasses
    simp [unusedClass]
  · cases importFinding_of_mem foundImports inImports
    simp [unusedImport]
  · obtain ⟨_, _, d, -, -, -, rfl⟩ :=
      exists_of_mem_unusedDependencies foundDependencies inDependencies
    simp [unusedDependency]
  · cases sizeFinding_of_mem foundLarge inLarge
    simp [largeFunction]
  · obtain ⟨_, -, _, foundHere, inFile⟩ := exists_of_mem_flatten foundComments inComments
    obtain ⟨run, -, rfl⟩ := exists_of_mem_commentedCode foundHere inFile
    simp [CommentRun.issue]

/-- An unused function or method is reported in one of the two categories made for them. -/
theorem mem_unused_of_mem_issues {i : QualityInput} {references : References} {settings : Settings}
    {findings : QualityFindings} (found : ofInput i references settings = .ok findings)
    {issue : Issue} (member : issue ∈ findings.issues)
    (kind : issue.kind = "unused_function" ∨ issue.kind = "unused_method") :
    issue ∈ findings.unusedFunctions ∨ issue ∈ findings.unusedMethods := by
  rcases List.mem_append.mp (findings.issues_perm.mem_iff.mp member) with unused | other
  · exact List.mem_append.mp unused
  · obtain ⟨notFunction, notMethod⟩ := kind_of_mem_otherFindings found other
    rcases kind with isFunction | isMethod
    · exact absurd isFunction notFunction
    · exact absurd isMethod notMethod

/-- Findings are given as soon as those are that are drawn from outlines and manifests. -/
theorem exists_ofInput {i : QualityInput} {references : References} {settings : Settings}
    (given : settings.NumbersGiven) {functions methods classes imports dependencies large : List Issue}
    (foundFunctions : unusedSymbols i.declared.functions references = .ok functions)
    (foundMethods : unusedSymbols i.declared.methods references = .ok methods)
    (foundClasses : Surveyor.unusedClasses i.declared.classes references
      (.bool (Surveyor.hasDynamicLoading i.contents)) = .ok classes)
    (foundImports : Surveyor.unusedImports i.outlines i.contents = .ok imports)
    (foundDependencies : Surveyor.unusedDependencies i.dependencies i.contents = .ok dependencies)
    (foundLarge : Surveyor.largeFunctions i.outlines i.contents = .ok large) :
    ∃ findings, ofInput i references settings = .ok findings
      ∧ findings.unusedFunctions = functions ∧ findings.unusedMethods = methods := by
  obtain ⟨comments, foundComments⟩ :=
    exists_mapM_eq_ok fun file (_ : file ∈ i.commentFiles) =>
      exists_commentedCode given.commentLines file.1 file.2
  obtain ⟨records, foundRecords⟩ :=
    exists_complexity given.threshold given.limit i.contents i.obfuscated
  simp only [ofInput, foundFunctions, foundMethods, foundClasses, foundImports, foundDependencies,
    foundLarge, foundRecords]
  rw [foundComments]
  exact ⟨_, rfl, rfl, rfl⟩

/-- No unused function or method is reported under a name in use. -/
theorem not_reported_of_used {i : QualityInput} {references : References} {settings : Settings}
    {findings : QualityFindings} (found : ofInput i references settings = .ok findings) {n : String}
    (used : n ∈ references) {issue : Issue} (member : issue ∈ findings.issues)
    (kind : issue.kind = "unused_function" ∨ issue.kind = "unused_method") :
    issue.name ≠ .str n := by
  have unusedName : ∀ {symbols : List DeclaredSymbol} {issues : List Issue},
      unusedSymbols symbols references = .ok issues → issue ∈ issues → issue.name ≠ .str n := by
    intro symbols issues foundSymbols inIssues named
    obtain ⟨symbol, -, rfl, unused⟩ := mem_unusedSymbols foundSymbols inIssues
    rw [show symbol.name = .str n from named, isUnused_str, Std.HashSet.contains_iff_mem.mpr used] at unused
    simp at unused
  have inUnused := mem_unused_of_mem_issues found member kind
  simp only [ofInput, bind_eq_ok, pure_eq_ok] at found
  obtain ⟨functions, foundFunctions, methods, foundMethods, rest⟩ := found
  obtain ⟨_, -, _, -, _, -, _, -, _, -, _, -, rfl⟩ := rest
  rcases inUnused with inFunctions | inMethods
  · exact unusedName foundFunctions inFunctions
  · exact unusedName foundMethods inMethods

end QualityFindings

end Surveyor
