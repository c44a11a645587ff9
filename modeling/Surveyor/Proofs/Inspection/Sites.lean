import Surveyor.Proofs.Inspection.Shown
import Surveyor.Proofs.Quality.CommentRuns

/-! # Where findings lie

A finding about a declaration has the file and the line that the outline gives it, a finding about
comments those of the run; so it lies on a line of the content of a record (`Issue.LiesIn`). Only a
finding about a dependency has no line; in place of a file it has the name of the manifest
(`Issue.IsOfManifest`). There are no other findings (`liesIn_or_isOfManifest`).
-/

namespace Surveyor

/-! ## What the findings are drawn from -/

/-- The records, outlines and dependencies that findings are drawn from. -/
structure QualityInput.Sees (i : QualityInput) (records : List FileRecord) (outlines : List Outline)
    (dependencies : List Value) : Prop where
  hasContents : i.contents = contentsOf records
  hasOutlines : outlinesByPath i.outlines
    = .ok ((byPath outlines).map fun o => (Value.str o.path, o.toValue.freeze))
  hasDeclared : i.declared = ⟨(byPath outlines).flatMap (·.symbols.functions),
    (byPath outlines).flatMap (·.symbols.methods), (byPath outlines).flatMap (·.symbols.classes)⟩
  hasDependencies : i.dependencies.members = .ok (dependencies.map Value.freeze)

theorem mem_byPath {outlines : List Outline} {o : Outline} : o ∈ byPath outlines ↔ o ∈ outlines :=
  List.mem_mergeSort

/-- Outlines are told by the members of what lists them. -/
theorem outlinesByPath_of_members {v : Value} {outlines : List Outline}
    (members : v.members = .ok ((outlines.map Outline.toValue).map Value.freeze)) :
    outlinesByPath v = .ok ((byPath outlines).map fun o => (Value.str o.path, o.toValue.freeze)) := by
  have same : v.members = (frozenOutlines outlines).members := by
    rw [members, frozenOutlines, Value.freeze, Value.freezeItems_eq_map]
    rfl
  rw [← outlinesByPath_frozen, outlinesByPath, outlinesByPath, same]

theorem Took.sees {context : StageContext} {invoked : List (String × Value)} {state : Entries}
    {snapshot : Value} (took : Took context invoked state .qualityScan snapshot)
    {records : List FileRecord} {outlines : List Outline} {dependencies : List Value}
    (catalogued : Catalogued context state records)
    (outlined : Lists state "code_structure" "files" (outlines.map Outline.toValue))
    (declared : Lists state "tech_stack" "dependencies" dependencies) {i : QualityInput}
    (read : QualityInput.ofSnapshot snapshot = .ok i) : i.Sees records outlines dependencies := by
  have shows_ := took.showsRecords catalogued (by simp [Stage.qualityScan]) (by simp [Stage.qualityScan])
  have seenOutlines := took.partField_eq outlined (by simp [Stage.qualityScan]) (by decide)
  have seenDependencies := took.partField_eq declared (by simp [Stage.qualityScan]) (by decide)
  have byPath_ := outlinesByPath_of_members (members_frozen (outlines.map Outline.toValue))
  -- Everything that is read is known by now except for the symbols, which are read off the outlines.
  simp only [QualityInput.ofSnapshot, Snapshot.outlines, seenOutlines, seenDependencies,
    shows_.contents, bind_eq_ok, pure_eq_ok, Except.ok.injEq] at read
  obtain ⟨_, rfl, _, -, _, rfl, _, rfl, _, -, symbols, ofOutlines, rfl⟩ := read
  have frozen := ofOutlines_frozen outlines
  rw [DeclaredSymbols.ofOutlines, outlinesByPath_frozen] at frozen
  rw [DeclaredSymbols.ofOutlines, byPath_, frozen] at ofOutlines
  cases ofOutlines
  exact ⟨rfl, byPath_, rfl, members_frozen dependencies⟩

/-! ## Findings on a line -/

/-- A finding on a line of what was read of a file, where its name stands if it is that of an unused
function or method. -/
structure Issue.LiesOn (issue : Issue) (record : FileRecord) (content : String) (line : Int) :
    Prop where
  file : issue.file = .str record.path
  read : record.content = some content
  hasLine : issue.line = .int line
  isLine : IsLine (Text.ofString content) line
  ends : ∀ last, issue.extra.lookup "end_line" = some last →
    ∃ n : Nat, last = .ofNat n ∧ n ≤ (textLines (Text.ofString content)).length
  named : issue.kind = "unused_function" ∨ issue.kind = "unused_method" →
    ∃ n, issue.name = .str n ∧ OnLine (Text.ofString content) line n
  notDependency : issue.kind ≠ "unused_dependency"

def Issue.LiesIn (issue : Issue) (records : List FileRecord) : Prop :=
  ∃ record ∈ records, ∃ content line, issue.LiesOn record content line

section

variable {records : List FileRecord} {o : Outline}

/-- What an outline places on a line lies on that line of its record. -/
theorem Outline.IsOf.liesIn (isOf : o.IsOf records) {issue : Issue} {line : Int}
    (file : issue.file = .str o.path) (hasLine : issue.line = .int line)
    (noEnd : issue.extra.lookup "end_line" = none) (notDependency : issue.kind ≠ "unused_dependency")
    (isLine : ∀ t, o.Placed t → IsLine t line)
    (named : issue.kind = "unused_function" ∨ issue.kind = "unused_method" →
      ∃ n, issue.name = .str n ∧ ∀ t, o.Placed t → OnLine t line n) :
    issue.LiesIn records := by
  obtain ⟨record, listed, content, samePath, read, placed⟩ := isOf
  refine ⟨record, listed, content, line, ?_⟩
  constructor
  · rw [file, samePath]
  · exact read
  · exact hasLine
  · exact isLine _ placed
  · intro last here
    rw [noEnd] at here
    cases here
  · intro isNamed
    obtain ⟨n, hasName, onLine⟩ := named isNamed
    exact ⟨n, hasName, onLine _ placed⟩
  · exact notDependency

theorem liesIn_of_function (isOf : o.IsOf records) {symbol : DeclaredSymbol}
    (member : symbol ∈ o.symbols.functions) : (unusedSymbol symbol).LiesIn records := by
  obtain ⟨f, inFunctions, rfl⟩ := List.mem_map.mp member
  have onLine : ∀ t, o.Placed t → OnLine t f.line f.name := fun t placed =>
    placed.functions f inFunctions
  refine isOf.liesIn rfl rfl rfl
    (by simp [unusedSymbol, Outline.functionSymbol, SymbolKind.label])
    (fun t placed => (onLine t placed).isLine) ?_
  exact fun _ => ⟨f.name, rfl, onLine⟩

theorem liesIn_of_method (isOf : o.IsOf records) {symbol : DeclaredSymbol}
    (member : symbol ∈ o.symbols.methods) : (unusedSymbol symbol).LiesIn records := by
  obtain ⟨c, inClasses, inClass⟩ := List.mem_flatMap.mp member
  obtain ⟨m, inMethods, isSymbol⟩ := List.mem_filterMap.mp inClass
  have onLine : ∀ t, o.Placed t → OnLine t m.line m.name := fun t placed =>
    placed.methods c inClasses m inMethods
  unfold Outline.methodSymbol? at isSymbol
  split at isSymbol
  · cases isSymbol
  · cases isSymbol
    refine isOf.liesIn rfl rfl rfl (by simp [unusedSymbol, SymbolKind.label])
      (fun t placed => (onLine t placed).isLine) ?_
    exact fun _ => ⟨m.name, rfl, onLine⟩

theorem liesIn_of_class (isOf : o.IsOf records) {symbol : DeclaredSymbol}
    (member : symbol ∈ o.symbols.classes) (dynamicLoading : Value) :
    (unusedClass dynamicLoading symbol).LiesIn records := by
  obtain ⟨c, inClasses, rfl⟩ := List.mem_map.mp member
  refine isOf.liesIn rfl rfl rfl (by simp [unusedClass]) (fun t placed => placed.classes c inClasses) ?_
  simp [unusedClass]

theorem liesIn_of_import (isOf : o.IsOf records) {i : Import} (member : i ∈ o.imports) (source : Value)
    (specifier : String) :
    (unusedImport (.str o.path) (.int i.line) source specifier).LiesIn records := by
  refine isOf.liesIn rfl rfl rfl (by simp [unusedImport]) (fun t placed => placed.imports i member) ?_
  simp [unusedImport]

theorem liesIn_of_candidate (isOf : o.IsOf records) {candidate : SizeCandidate}
    (member : candidate ∈ o.functions.map functionSize
      ++ (o.classes.map fun c => c.methods.map (methodSize c)).flatten)
    (language : Value) (size : Nat) :
    (largeFunction (.str o.path) language size candidate).LiesIn records := by
  have placedAt : ∃ line : Int, candidate.line = .int line ∧ ∀ t, o.Placed t → IsLine t line := by
    simp only [List.mem_append, List.mem_map, List.mem_flatten] at member
    rcases member with ⟨f, inFunctions, rfl⟩ | ⟨_, ⟨c, inClasses, rfl⟩, inClass⟩
    · exact ⟨f.line, rfl, fun t placed => (placed.functions f inFunctions).isLine⟩
    · obtain ⟨m, inMethods, rfl⟩ := List.mem_map.mp inClass
      exact ⟨m.line, rfl, fun t placed => (placed.methods c inClasses m inMethods).isLine⟩
  obtain ⟨line, hasLine, isLine⟩ := placedAt
  refine isOf.liesIn rfl hasLine rfl (by simp [largeFunction]) isLine ?_
  simp [largeFunction]

theorem liesIn_of_run {path content : String} (member : (path, content) ∈ contentsOf records)
    {run : CommentRun} (found : run ∈ CommentRun.undocumented path content) :
    (run.issue path).LiesIn records := by
  obtain ⟨record, listed, rfl, read⟩ := exists_record_of_mem_contentsOf member
  obtain ⟨some_, upTo⟩ := CommentRun.endsBy_of_mem_findAll (List.mem_filter.mp found).1
  refine ⟨record, listed, content, (run.start + 1 : Nat), ?_⟩
  constructor
  · rfl
  · exact read
  · rfl
  · -- Lines are counted from one, and a run from the index of its first line.
    constructor
    · omega
    · omega
  · intro last here
    cases here
    exact ⟨run.start + run.length, rfl, upTo⟩
  · simp [CommentRun.issue]
  · simp [CommentRun.issue]

end

/-! ## Findings about manifests -/

/-- A finding about a dependency of the manifest that was read; it has no line, and in place of a path
it has the name of the manifest. -/
structure Issue.IsOfManifest (issue : Issue) (records : List FileRecord) : Prop where
  kind : issue.kind = "unused_dependency"
  line : issue.line = .null
  file : ∃ (kind : ManifestKind) (record : FileRecord), record.IsManifest records kind
    ∧ issue.file = .str kind.fileName

theorem get?_freeze (v : Value) (key : String) : v.freeze.get? key = (v.get? key).map Value.freeze := by
  cases v with
  | map entries | view entries => exact Value.lookup_freezeEntries entries key
  | null | bool _ | int _ | float _ | str _ | list _ | tuple _ | set _ => rfl

theorem field_eq_get {v found : Value} {key : String} (here : v.get? key = some found) :
    v.field key = .ok found := by
  cases v with
  | map entries | view entries =>
    have looked : entries.lookup key = some found := here
    simp [Value.field, Value.fieldOr, looked]
  | null | bool _ | int _ | float _ | str _ | list _ | tuple _ | set _ => cases here

theorem isOfManifest_of_entry {records : List FileRecord} {entry : Value}
    (declared : IsDeclared records entry) {d : Dependency}
    (read : Dependency.ofEntry? entry.freeze = .ok (some d)) :
    (unusedDependency d).IsOfManifest records := by
  obtain ⟨kind, record, _, isManifest, -, source⟩ := declared
  have frozen : entry.freeze.get? "source" = some (.str kind.fileName) := by
    rw [get?_freeze, source]
    rfl
  -- An entry that is read as a dependency keeps its source, whatever its name and type are.
  have sourced : d.source = .str kind.fileName := by
    simp only [Dependency.ofEntry?, bind_eq_ok] at read
    obtain ⟨name, -, type, -, read⟩ := read
    split at read
    · cases read
    · simp only [bind_eq_ok] at read
      obtain ⟨text, -, read⟩ := read
      split at read
      · cases read
      · simp only [field_eq_get frozen, bind_eq_ok, pure_eq_ok, Except.ok.injEq,
          Option.some.injEq] at read
        obtain ⟨_, -, _, rfl, rfl⟩ := read
        rfl
  exact ⟨rfl, rfl, kind, record, isManifest, sourced⟩

/-! ## All findings -/

theorem mem_of_mem_commentFiles {i : QualityInput} {path content : String}
    (member : (path, content) ∈ i.commentFiles) : (path, content) ∈ i.contents := by
  have filled := (List.mem_filter.mp member).1
  exact List.mem_mergeSort.mp (List.mem_filter.mp filled).1

/-- Declared symbols are those of the outlines. -/
theorem exists_outline_of_symbol {outlines : List Outline} {records : List FileRecord}
    (outlined : ∀ o ∈ outlines, o.IsOf records) {symbols : Outline → List DeclaredSymbol}
    {symbol : DeclaredSymbol} (member : symbol ∈ (byPath outlines).flatMap symbols) :
    ∃ o : Outline, o.IsOf records ∧ symbol ∈ symbols o := by
  obtain ⟨o, inOutlines, inOutline⟩ := List.mem_flatMap.mp member
  exact ⟨o, outlined o (mem_byPath.mp inOutlines), inOutline⟩

/-- Outlined files are those of the outlines. -/
theorem QualityInput.Sees.exists_outline {i : QualityInput} {records : List FileRecord}
    {outlines : List Outline} {dependencies : List Value} (sees : i.Sees records outlines dependencies)
    (outlined : ∀ o ∈ outlines, o.IsOf records) {files : List (Value × Value)} {path v : Value}
    (listed : outlinesByPath i.outlines = .ok files) (member : (path, v) ∈ files) :
    ∃ o : Outline, o.IsOf records ∧ path = .str o.path ∧ v = o.toValue.freeze := by
  rw [sees.hasOutlines] at listed
  cases listed
  obtain ⟨o, inOutlines, same⟩ := List.mem_map.mp member
  cases same
  exact ⟨o, outlined o (mem_byPath.mp inOutlines), rfl, rfl⟩

theorem QualityFindings.liesIn_or_isOfManifest {i : QualityInput} {records : List FileRecord}
    {outlines : List Outline} {dependencies : List Value} (sees : i.Sees records outlines dependencies)
    (outlined : ∀ o ∈ outlines, o.IsOf records)
    (declared : ∀ entry ∈ dependencies, IsDeclared records entry) {references : References}
    {settings : Settings} {findings : QualityFindings}
    (found : ofInput i references settings = .ok findings) :
    ∀ issue ∈ findings.issues, issue.LiesIn records ∨ issue.IsOfManifest records := by
  simp only [ofInput, bind_eq_ok, pure_eq_ok] at found
  obtain ⟨functions, foundFunctions, methods, foundMethods, classes, foundClasses, imports,
    foundImports, ofDependencies, foundDependencies, large, foundLarge, comments, foundComments,
    complexity, -, rfl⟩ := found
  rw [sees.hasDeclared] at foundFunctions foundMethods foundClasses
  intro issue member
  have inCategory := List.mem_mergeSort.mp member
  simp only [categories, List.flatMap_cons, List.flatMap_nil, List.append_nil,
    List.mem_append] at inCategory
  -- One case for each category. Only an unused dependency lies in a manifest.
  rcases inCategory with
    isFunction | isMethod | isClass | isImport | isDependency | isLarge | isComment
  · obtain ⟨symbol, inSymbols, rfl, -⟩ := mem_unusedSymbols foundFunctions isFunction
    obtain ⟨o, isOf, inOutline⟩ := exists_outline_of_symbol outlined inSymbols
    exact .inl (liesIn_of_function isOf inOutline)
  · obtain ⟨symbol, inSymbols, rfl, -⟩ := mem_unusedSymbols foundMethods isMethod
    obtain ⟨o, isOf, inOutline⟩ := exists_outline_of_symbol outlined inSymbols
    exact .inl (liesIn_of_method isOf inOutline)
  · obtain ⟨symbol, inSymbols, rfl⟩ := exists_of_mem_unusedClasses foundClasses isClass
    obtain ⟨o, isOf, inOutline⟩ := exists_outline_of_symbol outlined inSymbols
    exact .inl (liesIn_of_class isOf inOutline _)
  · obtain ⟨listed, inFiles, -, imported, inImports, placed, -⟩ := importFinding_of_mem foundImports isImport
    obtain ⟨o, isOf, rfl, rfl⟩ := sees.exists_outline outlined listed inFiles
    have imports : o.toValue.freeze.membersUnder "imports"
        = .ok ((o.imports.map Import.toValue).map Value.freeze) := Value.membersUnder_freeze rfl
    cases imports.symm.trans imported
    simp only [List.map_map, List.mem_map, Function.comp_apply] at inImports
    obtain ⟨declaration, inOutline, rfl⟩ := inImports
    cases placed
    exact .inl (liesIn_of_import isOf inOutline _ _)
  · obtain ⟨entries, entry, d, listed, inEntries, read, rfl⟩ :=
      exists_of_mem_unusedDependencies foundDependencies isDependency
    rw [sees.hasDependencies] at listed
    cases listed
    obtain ⟨entry, inDependencies, rfl⟩ := List.mem_map.mp inEntries
    exact .inr (isOfManifest_of_entry (declared entry inDependencies) read)
  · obtain ⟨listed, inFiles, -, -, -, sized, inCandidates⟩ := sizeFinding_of_mem foundLarge isLarge
    obtain ⟨o, isOf, rfl, rfl⟩ := sees.exists_outline outlined listed inFiles
    cases (sizeCandidates_frozen o).symm.trans sized
    exact .inl (liesIn_of_candidate isOf inCandidates _ _)
  · obtain ⟨⟨path, content⟩, inCommentFiles, ofFile, foundHere, inFile⟩ :=
      exists_of_mem_flatten foundComments isComment
    obtain ⟨run, inRuns, rfl⟩ := exists_of_mem_commentedCode foundHere inFile
    have inContents := mem_of_mem_commentFiles inCommentFiles
    rw [sees.hasContents] at inContents
    exact .inl (liesIn_of_run inContents inRuns)

end Surveyor
