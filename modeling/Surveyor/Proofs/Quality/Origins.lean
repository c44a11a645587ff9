import Surveyor.Inspection.Quality
import Surveyor.Proofs.Value.Fault

/-! # Where findings come from

Every finding is the finding about something: a declared symbol, an import, a dependency, a function
or method of an outline, or a run of comment lines. One lemma for each search says so, whatever the
snapshot is; kinds, severities and places are read off from there.
-/

namespace Surveyor

theorem mem_of_mem_unreferenced {symbols : List DeclaredSymbol} {references : References}
    {kept : List DeclaredSymbol} (found : unreferenced symbols references = .ok kept)
    {symbol : DeclaredSymbol} (member : symbol ∈ kept) : symbol ∈ symbols := by
  simp only [unreferenced, bind_eq_ok, pure_eq_ok] at found
  obtain ⟨marked, markedAll, rfl⟩ := found
  obtain ⟨⟨_, mark⟩, inMarked, rfl⟩ := List.mem_map.mp member
  obtain ⟨source, inSymbols, same⟩ := exists_of_mem_mapM markedAll (List.mem_filter.mp inMarked).1
  simp only [bind_eq_ok, pure_eq_ok, Prod.mk.injEq] at same
  obtain ⟨_, -, rfl, -⟩ := same
  exact inSymbols

theorem exists_of_mem_unusedClasses {symbols : List DeclaredSymbol} {references : References}
    {dynamicLoading : Value} {issues : List Issue}
    (found : unusedClasses symbols references dynamicLoading = .ok issues) {issue : Issue}
    (member : issue ∈ issues) : ∃ symbol ∈ symbols, issue = unusedClass dynamicLoading symbol := by
  simp only [unusedClasses, bind_eq_ok, pure_eq_ok] at found
  obtain ⟨kept, unused, rfl⟩ := found
  obtain ⟨symbol, inKept, rfl⟩ := List.mem_map.mp member
  exact ⟨symbol, mem_of_mem_unreferenced unused inKept, rfl⟩

theorem exists_of_mem_unusedDependencies {dependencies : Value} {contents : Contents}
    {issues : List Issue} (found : unusedDependencies dependencies contents = .ok issues)
    {issue : Issue} (member : issue ∈ issues) :
    ∃ entries entry d, dependencies.members = .ok entries ∧ entry ∈ entries
      ∧ Dependency.ofEntry? entry = .ok (some d) ∧ issue = unusedDependency d := by
  simp only [unusedDependencies, bind_eq_ok, pure_eq_ok] at found
  obtain ⟨entries, listed, visible, readAll, rfl⟩ := found
  obtain ⟨d, unused, rfl⟩ := List.mem_map.mp member
  have inVisible : some d ∈ visible := by
    simpa using (List.mem_filter.mp unused).1
  obtain ⟨entry, inEntries, read⟩ := exists_of_mem_mapM readAll inVisible
  exact ⟨entries, entry, d, listed, inEntries, read, rfl⟩

/-- A finding about a name that an outlined file with something in it imports. -/
inductive ImportFinding (outlines : Value) (contents : Contents) : Issue → Prop
  | unused {files : List (Value × Value)} {path o i line source : Value} {content specifier : String}
      {imports : List Value}
      (outlined : outlinesByPath outlines = .ok files) (inFiles : (path, o) ∈ files)
      (filled : contents.filledAt? path = .ok (some content))
      (imported : o.membersUnder "imports" = .ok imports) (inImports : i ∈ imports)
      (placed : i.field "line" = .ok line) (sourced : i.field "source" = .ok source) :
      ImportFinding outlines contents (unusedImport path line source specifier)

theorem importFinding_of_mem {outlines : Value} {contents : Contents} {issues : List Issue}
    (found : unusedImports outlines contents = .ok issues) {issue : Issue}
    (member : issue ∈ issues) : ImportFinding outlines contents issue := by
  simp only [unusedImports, bind_eq_ok, pure_eq_ok] at found
  obtain ⟨files, outlined, byFile, foundAll, rfl⟩ := found
  obtain ⟨⟨path, o⟩, inFiles, ofFile, foundHere, inFile⟩ := exists_of_mem_flatten foundAll member
  simp only [unusedImportsOf, bind_eq_ok] at foundHere
  obtain ⟨content, filled, foundHere⟩ := foundHere
  cases content with
  | none =>
    -- A file that is empty or was not read is passed over.
    rw [pure_eq_ok] at foundHere
    subst foundHere
    cases inFile
  | some content =>
    simp only [bind_eq_ok, pure_eq_ok] at foundHere
    obtain ⟨imports, imported, byImport, foundImports, rfl⟩ := foundHere
    obtain ⟨i, inImports, ofImport, foundImport, inImport⟩ :=
      exists_of_mem_flatten foundImports inFile
    simp only [unusedImportsIn, bind_eq_ok, pure_eq_ok] at foundImport
    obtain ⟨_, -, _, -, line, placed, source, sourced, rfl⟩ := foundImport
    obtain ⟨specifier, -, rfl⟩ := List.mem_map.mp inImport
    exact .unused outlined inFiles filled imported inImports placed sourced

/-- A finding about a function or method of an outlined file with something in it. -/
inductive SizeFinding (outlines : Value) (contents : Contents) : Issue → Prop
  | large {files : List (Value × Value)} {path o given language : Value} {content : String} {size : Nat}
      {candidates : List SizeCandidate} {candidate : SizeCandidate}
      (outlined : outlinesByPath outlines = .ok files) (inFiles : (path, o) ∈ files)
      (filled : contents.filledAt? path = .ok (some content))
      (spoken : o.field "language" = .ok given)
      (known : (given.orElse (.str "default")).asKey = .ok language)
      (sized : sizeCandidates o = .ok candidates) (inCandidates : candidate ∈ candidates) :
      SizeFinding outlines contents (largeFunction path language size candidate)

theorem sizeFinding_of_mem {outlines : Value} {contents : Contents} {issues : List Issue}
    (found : largeFunctions outlines contents = .ok issues) {issue : Issue}
    (member : issue ∈ issues) : SizeFinding outlines contents issue := by
  simp only [largeFunctions, bind_eq_ok, pure_eq_ok] at found
  obtain ⟨files, outlined, byFile, foundAll, rfl⟩ := found
  obtain ⟨⟨path, o⟩, inFiles, ofFile, foundHere, inFile⟩ := exists_of_mem_flatten foundAll member
  simp only [largeFunctionsOf, bind_eq_ok] at foundHere
  obtain ⟨content, filled, foundHere⟩ := foundHere
  cases content with
  | none =>
    rw [pure_eq_ok] at foundHere
    subst foundHere
    cases inFile
  | some content =>
    simp only [bind_eq_ok, pure_eq_ok] at foundHere
    obtain ⟨given, spoken, language, known, candidates, sized, measured, measuredAll, rfl⟩ := foundHere
    obtain ⟨⟨candidate, size⟩, large, rfl⟩ := List.mem_map.mp inFile
    obtain ⟨source, inCandidates, same⟩ :=
      exists_of_mem_mapM measuredAll (List.mem_filter.mp large).1
    simp only [bind_eq_ok, pure_eq_ok, Prod.mk.injEq] at same
    obtain ⟨_, -, rfl, -⟩ := same
    exact .large outlined inFiles filled spoken known sized inCandidates

theorem exists_of_mem_commentedCode {path content : String} {minLines : Except ValueFault Int}
    {issues : List Issue} (found : commentedCode path content minLines = .ok issues) {issue : Issue}
    (member : issue ∈ issues) :
    ∃ run ∈ CommentRun.undocumented path content, issue = run.issue path := by
  unfold commentedCode at found
  split at found
  · rw [pure_eq_ok] at found
    subst found
    cases member
  · simp only [bind_eq_ok, pure_eq_ok] at found
    obtain ⟨minimum, -, rfl⟩ := found
    obtain ⟨run, long, rfl⟩ := List.mem_map.mp member
    exact ⟨run, (List.mem_filter.mp long).1, rfl⟩

/-! ## Declared symbols -/

namespace DeclaredSymbols

theorem kind_of_ofOutline {path o : Value} {declared : DeclaredSymbols}
    (read : ofOutline path o = .ok declared) :
    (∀ symbol ∈ declared.functions, symbol.kind = .function)
      ∧ ∀ symbol ∈ declared.methods, symbol.kind = .method := by
  simp only [ofOutline, bind_eq_ok, pure_eq_ok] at read
  obtain ⟨_, -, functionValues, -, functions, readFunctions, classValues, -, classes, readClasses,
    rfl⟩ := read
  constructor
  · intro symbol member
    obtain ⟨f, -, readFunction⟩ := exists_of_mem_mapM readFunctions member
    simp only [ofFunction, bind_eq_ok, pure_eq_ok] at readFunction
    obtain ⟨name, -, line, -, rfl⟩ := readFunction
    rfl
  · intro symbol member
    obtain ⟨⟨classSymbol, methods⟩, inClasses, inMethods⟩ := List.mem_flatMap.mp member
    obtain ⟨c, -, readClass⟩ := exists_of_mem_mapM readClasses inClasses
    simp only [ofClass, bind_eq_ok, pure_eq_ok, Prod.mk.injEq] at readClass
    obtain ⟨name, -, line, -, _, -, read, readMethods, -, rfl⟩ := readClass
    have inRead : some symbol ∈ read := by simpa using inMethods
    obtain ⟨m, -, readMethod⟩ := exists_of_mem_mapM readMethods inRead
    simp only [ofMethod?, bind_eq_ok] at readMethod
    obtain ⟨methodName, -, text, -, readMethod⟩ := readMethod
    split at readMethod
    · cases readMethod
    · simp only [bind_eq_ok, pure_eq_ok, Option.some.injEq] at readMethod
      obtain ⟨_, -, _, -, _, -, rfl⟩ := readMethod
      rfl

theorem kind_of_ofOutlines {outlines : Value} {declared : DeclaredSymbols}
    (read : ofOutlines outlines = .ok declared) :
    (∀ symbol ∈ declared.functions, symbol.kind = .function)
      ∧ ∀ symbol ∈ declared.methods, symbol.kind = .method := by
  simp only [ofOutlines, bind_eq_ok, pure_eq_ok] at read
  obtain ⟨files, -, parts, readParts, rfl⟩ := read
  have ofPart : ∀ part ∈ parts, (∀ symbol ∈ part.functions, symbol.kind = .function)
      ∧ ∀ symbol ∈ part.methods, symbol.kind = .method := by
    intro part member
    obtain ⟨⟨path, o⟩, -, readPart⟩ := exists_of_mem_mapM readParts member
    exact kind_of_ofOutline readPart
  constructor
  · intro symbol member
    obtain ⟨part, inParts, inPart⟩ := List.mem_flatMap.mp member
    exact (ofPart part inParts).1 symbol inPart
  · intro symbol member
    obtain ⟨part, inParts, inPart⟩ := List.mem_flatMap.mp member
    exact (ofPart part inParts).2 symbol inPart

end DeclaredSymbols

/-! ## The stage -/

namespace QualityFindings

variable {context : StageContext} {snapshot : Value} {i : QualityInput} {references : References}
  {fault : ValueFault} {every : Int}

theorem run_of_unread (read : QualityInput.ofSnapshot snapshot = .error fault) :
    run context snapshot = ⟨[], .failed (.ofFault fault)⟩ := by
  simp only [run, read, bind, Except.bind]

theorem run_of_uncollected (read : QualityInput.ofSnapshot snapshot = .ok i)
    (collected : i.references context.settings = .error fault) :
    run context snapshot = ⟨[], .failed (.ofFault fault)⟩ := by
  simp only [run, read, lookUp, collected, bind, Except.bind]

theorem run_of_unfound (read : QualityInput.ofSnapshot snapshot = .ok i)
    (collected : i.references context.settings = .ok references)
    (chosen : context.settings.intervalFor i.referenceFiles.length = .ok every)
    (found : ofInput i references context.settings = .error fault) :
    run context snapshot
      = ⟨referenceSteps i every references.size, .failed (.ofFault fault)⟩ := by
  simp only [run, read, lookUp, collected, chosen, find, found, bind, Except.bind, pure, Except.pure]

theorem run_of_found {f : QualityFindings} {everyComment : Int}
    (read : QualityInput.ofSnapshot snapshot = .ok i)
    (collected : i.references context.settings = .ok references)
    (chosen : context.settings.intervalFor i.referenceFiles.length = .ok every)
    (found : ofInput i references context.settings = .ok f)
    (chosenLater : context.settings.intervalFor i.commentFiles.length = .ok everyComment) :
    run context snapshot
      = ⟨referenceSteps i every references.size ++ commentSteps i everyComment,
        .delta [("code_quality", f.toValue)]⟩ := by
  simp only [run, read, lookUp, collected, chosen, find, found, chosenLater, bind, Except.bind, pure,
    Except.pure]

/-- What the stage can do: fail, or publish the findings drawn from the snapshot. -/
theorem run_cases (context : StageContext) (snapshot : Value) :
    (∃ failure, (run context snapshot).result = .failed failure)
      ∨ ∃ i references findings, QualityInput.ofSnapshot snapshot = .ok i
        ∧ ofInput i references context.settings = .ok findings
        ∧ (run context snapshot).result = .delta [("code_quality", findings.toValue)] := by
  simp only [run]
  split
  · exact .inl ⟨_, rfl⟩
  · next input references steps started =>
    split
    · exact .inl ⟨_, rfl⟩
    · next findings later found =>
      simp only [bind_eq_ok, pure_eq_ok] at started
      obtain ⟨_, read, _, -, same⟩ := started
      cases same
      simp only [find, bind_eq_ok, pure_eq_ok] at found
      obtain ⟨_, foundAll, _, -, same⟩ := found
      cases same
      exact .inr ⟨_, _, _, read, foundAll, rfl⟩

end QualityFindings

end Surveyor
