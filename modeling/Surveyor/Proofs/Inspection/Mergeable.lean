import Surveyor.Proofs.Inspection.Completing
import Surveyor.Proofs.Pipeline.Layers

/-! # What the built-in stages return can be merged

Only a set whose members have no order cannot be merged. The parts that a stage is handed are plain
values, frozen, and so they have no sets; nor has what the built-in stages make of them. The findings
are the one thing that quotes values as they were handed on, so for these it is shown that everything
quoted is a field of something handed on (`QualityFindings.hasOrderedSets_toValue`).

So where a project is described by texts and its root is a directory, only a disturbance from outside
keeps an analysis from returning a report (`Analysis.undisturbed_of_builtin`).
-/

namespace Surveyor

/-! ## Fields and members -/

namespace Value

variable {v found : Value} {key : String}

theorem hasOrderedSets_of_get? (ordered : v.hasOrderedSets = true) (here : v.get? key = some found) :
    found.hasOrderedSets = true := by
  cases v with
  | map entries | view entries =>
    obtain ⟨_, _, rfl, -⟩ := List.lookup_eq_some_iff.mp here
    exact entriesHaveOrderedSets_iff.mp ordered (key, found) (by simp)
  | null | bool _ | int _ | float _ | str _ | list _ | tuple _ | set _ => cases here

theorem hasOrderedSets_of_entry (ordered : v.hasOrderedSets = true) (here : v.entry key = .ok found) :
    found.hasOrderedSets = true :=
  hasOrderedSets_of_get? ordered (entry_eq_ok_iff.mp here)

/-- A field that is missing is null. -/
theorem hasOrderedSets_of_field (ordered : v.hasOrderedSets = true) (here : v.field key = .ok found) :
    found.hasOrderedSets = true := by
  obtain ⟨-, rfl⟩ := isMap_of_field here
  rw [get]
  cases present : v.get? key with
  | none => rfl
  | some there => exact hasOrderedSets_of_get? ordered present

theorem hasOrderedSets_orElse {standIn : Value} (ordered : v.hasOrderedSets = true)
    (alsoOrdered : standIn.hasOrderedSets = true) : (v.orElse standIn).hasOrderedSets = true := by
  unfold orElse
  split
  · exact ordered
  · exact alsoOrdered

/-- The members of a text are texts, and those of a mapping its keys. -/
theorem hasOrderedSets_of_mem_members {items : List Value} (ordered : v.hasOrderedSets = true)
    (members : v.members = .ok items) : ∀ item ∈ items, item.hasOrderedSets = true := by
  cases v with
  | list listed | tuple listed =>
    cases members
    exact haveOrderedSets_iff.mp ordered
  | set listed =>
    cases members
    rw [hasOrderedSets, Bool.and_eq_true] at ordered
    exact haveOrderedSets_iff.mp ordered.1
  | str _ | map _ | view _ =>
    cases members
    intro item member
    obtain ⟨_, -, rfl⟩ := List.mem_map.mp member
    rfl
  | null | bool _ | int _ | float _ => cases members

theorem hasOrderedSets_of_mem_membersUnder {items : List Value} (ordered : v.hasOrderedSets = true)
    (members : v.membersUnder key = .ok items) : ∀ item ∈ items, item.hasOrderedSets = true := by
  simp only [membersUnder, bind_eq_ok] at members
  obtain ⟨found, here, members⟩ := members
  exact hasOrderedSets_of_mem_members
    (hasOrderedSets_orElse (hasOrderedSets_of_field ordered here) rfl) members

theorem hasOrderedSets_of_asKey (ordered : v.hasOrderedSets = true) (isKey : v.asKey = .ok found) :
    found.hasOrderedSets = true := by
  unfold asKey at isKey
  split at isKey
  · cases isKey
    exact ordered
  · cases isKey

end Value

/-! ## What a stage is handed -/

theorem isPlain_foldl_overlay (deltas : List Entries) {target : Entries}
    (plain : (Value.map target).isPlain = true) :
    (Value.map (deltas.foldl Entries.overlay target)).isPlain = true := by
  induction deltas generalizing target with
  | nil => exact plain
  | cons delta rest inductionHypothesis =>
    exact inductionHypothesis (Value.isPlain_overlayEntries plain delta)

/-- Outside of the record, a stage is handed plain values, frozen. -/
theorem hasOrderedSets_of_snapshotAfter {project : Project} {analyzedAt : String}
    {outcomes : List StageOutcome} {stage : Stage} {part : String} (different : part ≠ recordKey)
    {v : Value} (here : (snapshotAfter project analyzedAt outcomes stage).get? part = some v) :
    v.hasOrderedSets = true := by
  have plain : (Value.map (mergedDeltas outcomes)).isPlain = true := isPlain_foldl_overlay _ rfl
  rw [snapshotAfter, Value.freeze, Value.get?, Value.lookup_freezeEntries,
    Entries.lookup_cons_of_ne different, Entries.lookup_filter fun key => stage.reads.contains key,
    Option.map_eq_some_iff] at here
  obtain ⟨merged, seen, rfl⟩ := here
  split at seen
  · exact Value.hasOrderedSets_freeze (Value.isPlain_of_lookup plain seen)
  · cases seen

theorem hasOrderedSets_of_partField {snapshot : Value} {part key : String}
    (ordered : ∀ v, snapshot.get? part = some v → v.hasOrderedSets = true) {found : Value}
    (read : Snapshot.partField snapshot part key = .ok found) : found.hasOrderedSets = true := by
  simp only [Snapshot.partField, bind_eq_ok, pure_eq_ok] at read
  obtain ⟨whole, readPart, inPart, readKey, rfl⟩ := read
  obtain ⟨-, rfl⟩ := Value.isMap_of_field readPart
  have orderedPart : (snapshot.get part).hasOrderedSets = true := by
    rw [Value.get]
    cases present : snapshot.get? part with
    | none => rfl
    | some v => exact ordered v present
  exact Value.hasOrderedSets_orElse
    (Value.hasOrderedSets_of_field (Value.hasOrderedSets_orElse orderedPart rfl) readKey) rfl

/-! ## Findings -/

section

variable {outlines : Value} {contents : Contents} {issues : List Issue} {issue : Issue}

/-- A finding is as ordered as what it quotes. -/
theorem Issue.hasOrderedSets_toValue (name : issue.name.hasOrderedSets = true)
    (file : issue.file.hasOrderedSets = true) (line : issue.line.hasOrderedSets = true)
    (extra : ∀ entry ∈ issue.extra, entry.2.hasOrderedSets = true) :
    issue.toValue.hasOrderedSets = true := by
  -- Details go to the fields one by one, and none of them takes the place of a field.
  have added : ∀ (details fields : Entries), (∀ entry ∈ details, entry.2.hasOrderedSets = true) →
      (∀ entry ∈ fields, entry.2.hasOrderedSets = true) →
      (publish fields details).hasOrderedSets = true := by
    intro details
    induction details with
    | nil => exact fun fields _ ordered => Value.entriesHaveOrderedSets_iff.mpr ordered
    | cons detail rest inductionHypothesis =>
      intro fields orderedDetails ordered
      obtain ⟨orderedDetail, orderedRest⟩ := List.forall_mem_cons.mp orderedDetails
      refine inductionHypothesis _ orderedRest fun entry member => ?_
      simp only [Entries.insertNew] at member
      split at member
      · exact ordered entry member
      · rcases List.mem_append.mp member with present | new
        · exact ordered entry present
        · rw [List.mem_singleton.mp new]
          exact orderedDetail
  refine added issue.extra _ extra ?_
  simp only [List.forall_mem_cons]
  exact ⟨name, rfl, rfl, file, line, rfl, rfl, by simp⟩

theorem hasOrderedSets_of_mem_outlinesByPath (ordered : outlines.hasOrderedSets = true)
    {files : List (Value × Value)} (listed : outlinesByPath outlines = .ok files) {path o : Value}
    (member : (path, o) ∈ files) : path.hasOrderedSets = true ∧ o.hasOrderedSets = true := by
  obtain ⟨records, members, inRecords, hasPath⟩ :=
    Snapshot.get?_path_of_mem_outlinesByPath listed member
  have orderedOutline := Value.hasOrderedSets_of_mem_members ordered members o inRecords
  exact ⟨Value.hasOrderedSets_of_get? orderedOutline hasPath, orderedOutline⟩

/-- What the finding about a symbol quotes has its sets in order. -/
structure DeclaredSymbol.IsOrdered (symbol : DeclaredSymbol) : Prop where
  name : symbol.name.hasOrderedSets = true
  file : symbol.file.hasOrderedSets = true
  line : symbol.line.hasOrderedSets = true
  language : symbol.language.hasOrderedSets = true
  className : symbol.className.hasOrderedSets = true

namespace DeclaredSymbols

section

variable {path language owner v : Value} (orderedPath : path.hasOrderedSets = true)

include orderedPath

theorem isOrdered_of_ofFunction (orderedLanguage : language.hasOrderedSets = true)
    (ordered : v.hasOrderedSets = true) {symbol : DeclaredSymbol}
    (read : ofFunction path language v = .ok symbol) : symbol.IsOrdered := by
  simp only [ofFunction, bind_eq_ok, pure_eq_ok] at read
  obtain ⟨name, hasName, line, hasLine, rfl⟩ := read
  exact ⟨Value.hasOrderedSets_of_entry ordered hasName, orderedPath,
    Value.hasOrderedSets_of_entry ordered hasLine, orderedLanguage, rfl⟩

/-- Besides its own name and line, a method quotes the name of its class. -/
theorem isOrdered_of_ofMethod? (orderedLanguage : language.hasOrderedSets = true)
    (orderedOwner : owner.hasOrderedSets = true) (ordered : v.hasOrderedSets = true)
    {symbol : DeclaredSymbol} (read : ofMethod? path language owner v = .ok (some symbol)) :
    symbol.IsOrdered := by
  simp only [ofMethod?, bind_eq_ok] at read
  obtain ⟨name, hasName, text, -, read⟩ := read
  split at read
  · cases read
  · simp only [bind_eq_ok, pure_eq_ok, Option.some.injEq] at read
    obtain ⟨line, hasLine, className, hasClassName, _, -, rfl⟩ := read
    exact ⟨Value.hasOrderedSets_of_entry ordered hasName, orderedPath,
      Value.hasOrderedSets_of_entry ordered hasLine, orderedLanguage,
      Value.hasOrderedSets_of_entry orderedOwner hasClassName⟩

theorem isOrdered_of_ofClass (orderedLanguage : language.hasOrderedSets = true)
    (ordered : v.hasOrderedSets = true) {symbol : DeclaredSymbol} {methods : List DeclaredSymbol}
    (read : ofClass path language v = .ok (symbol, methods)) :
    symbol.IsOrdered ∧ ∀ method ∈ methods, method.IsOrdered := by
  simp only [ofClass, bind_eq_ok, pure_eq_ok, Prod.mk.injEq] at read
  obtain ⟨name, hasName, line, hasLine, values, listed, found, readMethods, rfl, rfl⟩ := read
  refine ⟨⟨Value.hasOrderedSets_of_entry ordered hasName, orderedPath,
    Value.hasOrderedSets_of_entry ordered hasLine, orderedLanguage, rfl⟩, fun method member => ?_⟩
  have inFound : some method ∈ found := by simpa using member
  obtain ⟨m, inValues, readMethod⟩ := exists_of_mem_mapM readMethods inFound
  exact isOrdered_of_ofMethod? orderedPath orderedLanguage ordered
    (Value.hasOrderedSets_of_mem_membersUnder ordered listed m inValues) readMethod

theorem isOrdered_of_ofOutline (ordered : v.hasOrderedSets = true) {declared : DeclaredSymbols}
    (read : ofOutline path v = .ok declared) :
    ∀ symbol ∈ declared.functions ++ declared.methods ++ declared.classes, symbol.IsOrdered := by
  simp only [ofOutline, bind_eq_ok, pure_eq_ok] at read
  obtain ⟨spoken, hasLanguage, functionValues, listedFunctions, functions, readFunctions, classValues,
    listedClasses, classes, readClasses, rfl⟩ := read
  have language : (spoken.orElse (.str "unknown")).hasOrderedSets = true :=
    Value.hasOrderedSets_orElse (Value.hasOrderedSets_of_field ordered hasLanguage) rfl
  have ofClasses : ∀ c ∈ classes, c.1.IsOrdered ∧ ∀ method ∈ c.2, method.IsOrdered := by
    intro c inClasses
    obtain ⟨value, inValues, readClass⟩ := exists_of_mem_mapM readClasses inClasses
    exact isOrdered_of_ofClass orderedPath language
      (Value.hasOrderedSets_of_mem_membersUnder ordered listedClasses value inValues) readClass
  intro symbol member
  rcases List.mem_append.mp member with early | isClass
  · rcases List.mem_append.mp early with isFunction | isMethod
    · obtain ⟨value, inValues, readFunction⟩ := exists_of_mem_mapM readFunctions isFunction
      exact isOrdered_of_ofFunction orderedPath language
        (Value.hasOrderedSets_of_mem_membersUnder ordered listedFunctions value inValues) readFunction
    · obtain ⟨c, inClasses, inMethods⟩ := List.mem_flatMap.mp isMethod
      exact (ofClasses c inClasses).2 symbol inMethods
  · obtain ⟨c, inClasses, rfl⟩ := List.mem_map.mp isClass
    exact (ofClasses c inClasses).1

end

theorem isOrdered_of_ofOutlines (ordered : outlines.hasOrderedSets = true) {declared : DeclaredSymbols}
    (read : ofOutlines outlines = .ok declared) :
    ∀ symbol ∈ declared.functions ++ declared.methods ++ declared.classes, symbol.IsOrdered := by
  simp only [ofOutlines, bind_eq_ok, pure_eq_ok] at read
  obtain ⟨files, listed, parts, readParts, rfl⟩ := read
  have ofPart : ∀ part ∈ parts, ∀ symbol ∈ part.functions ++ part.methods ++ part.classes,
      symbol.IsOrdered := by
    intro part member
    obtain ⟨⟨path, o⟩, inFiles, readPart⟩ := exists_of_mem_mapM readParts member
    obtain ⟨orderedPath, orderedOutline⟩ := hasOrderedSets_of_mem_outlinesByPath ordered listed inFiles
    exact isOrdered_of_ofOutline orderedPath orderedOutline readPart
  simp only [List.mem_append, List.mem_flatMap]
  rintro symbol ((⟨part, inParts, inPart⟩ | ⟨part, inParts, inPart⟩) | ⟨part, inParts, inPart⟩)
  · exact ofPart part inParts symbol (by simp [inPart])
  · exact ofPart part inParts symbol (by simp [inPart])
  · exact ofPart part inParts symbol (by simp [inPart])

end DeclaredSymbols

theorem DeclaredSymbol.IsOrdered.unusedSymbol {symbol : DeclaredSymbol} (ordered : symbol.IsOrdered) :
    (Surveyor.unusedSymbol symbol).toValue.hasOrderedSets = true := by
  refine Issue.hasOrderedSets_toValue ordered.name ordered.file ordered.line ?_
  simp only [Surveyor.unusedSymbol]
  split
  · simp [ordered.language, ordered.className]
  · simp [ordered.language]

theorem DeclaredSymbol.IsOrdered.unusedClass {symbol : DeclaredSymbol} (ordered : symbol.IsOrdered)
    (isDynamic : Bool) :
    (Surveyor.unusedClass (.bool isDynamic) symbol).toValue.hasOrderedSets = true := by
  refine Issue.hasOrderedSets_toValue ordered.name ordered.file ordered.line ?_
  have marked : (isLoadedBy (.bool isDynamic) symbol.language).hasOrderedSets = true := by
    unfold isLoadedBy
    split <;> rfl
  simp [Surveyor.unusedClass, ordered.language, marked]

theorem hasOrderedSets_of_mem_unusedImports (ordered : outlines.hasOrderedSets = true)
    (found : unusedImports outlines contents = .ok issues) (member : issue ∈ issues) :
    issue.toValue.hasOrderedSets = true := by
  obtain ⟨listed, inFiles, -, imported, inImports, placed, sourced⟩ := importFinding_of_mem found member
  obtain ⟨orderedPath, orderedOutline⟩ := hasOrderedSets_of_mem_outlinesByPath ordered listed inFiles
  have orderedImport := Value.hasOrderedSets_of_mem_membersUnder orderedOutline imported _ inImports
  refine Issue.hasOrderedSets_toValue rfl orderedPath
    (Value.hasOrderedSets_of_field orderedImport placed) ?_
  simp [unusedImport, Value.hasOrderedSets_of_field orderedImport sourced]

theorem hasOrderedSets_of_mem_sizeCandidates {o : Value} (ordered : o.hasOrderedSets = true)
    {candidates : List SizeCandidate} (sized : sizeCandidates o = .ok candidates) :
    ∀ c ∈ candidates, c.name.hasOrderedSets = true ∧ c.line.hasOrderedSets = true := by
  simp only [sizeCandidates, bind_eq_ok, pure_eq_ok] at sized
  obtain ⟨functionValues, listedFunctions, functions, readFunctions, classValues, listedClasses, byClass,
    readClasses, rfl⟩ := sized
  intro candidate member
  rcases List.mem_append.mp member with isFunction | isMethod
  · obtain ⟨f, inValues, readFunction⟩ := exists_of_mem_mapM readFunctions isFunction
    have orderedFunction := Value.hasOrderedSets_of_mem_membersUnder ordered listedFunctions f inValues
    simp only [functionCandidate, bind_eq_ok, pure_eq_ok] at readFunction
    obtain ⟨name, hasName, line, hasLine, rfl⟩ := readFunction
    exact ⟨Value.hasOrderedSets_of_entry orderedFunction hasName,
      Value.hasOrderedSets_of_entry orderedFunction hasLine⟩
  · obtain ⟨c, inClasses, ofClass, readClass, inClass⟩ := exists_of_mem_flatten readClasses isMethod
    have orderedClass := Value.hasOrderedSets_of_mem_membersUnder ordered listedClasses c inClasses
    simp only [bind_eq_ok] at readClass
    obtain ⟨methodValues, listedMethods, readMethods⟩ := readClass
    obtain ⟨m, inMethods, readMethod⟩ := exists_of_mem_mapM readMethods inClass
    have orderedMethod :=
      Value.hasOrderedSets_of_mem_membersUnder orderedClass listedMethods m inMethods
    simp only [methodCandidate, bind_eq_ok, pure_eq_ok] at readMethod
    obtain ⟨owner, -, name, -, line, hasLine, rfl⟩ := readMethod
    exact ⟨rfl, Value.hasOrderedSets_of_entry orderedMethod hasLine⟩

theorem hasOrderedSets_of_mem_largeFunctions (ordered : outlines.hasOrderedSets = true)
    (found : largeFunctions outlines contents = .ok issues) (member : issue ∈ issues) :
    issue.toValue.hasOrderedSets = true := by
  obtain ⟨listed, inFiles, -, spoken, known, sized, inCandidates⟩ := sizeFinding_of_mem found member
  obtain ⟨orderedPath, orderedOutline⟩ := hasOrderedSets_of_mem_outlinesByPath ordered listed inFiles
  obtain ⟨name, line⟩ := hasOrderedSets_of_mem_sizeCandidates orderedOutline sized _ inCandidates
  refine Issue.hasOrderedSets_toValue name orderedPath line ?_
  have language := Value.hasOrderedSets_of_asKey (Value.hasOrderedSets_orElse
    (Value.hasOrderedSets_of_field orderedOutline spoken) rfl) known
  simp only [largeFunction, List.forall_mem_cons]
  exact ⟨rfl, rfl, language, by simp⟩

theorem Dependency.hasOrderedSets_of_ofEntry? {entry : Value} (ordered : entry.hasOrderedSets = true)
    {d : Dependency} (read : Dependency.ofEntry? entry = .ok (some d)) :
    d.version.hasOrderedSets = true ∧ d.source.hasOrderedSets = true := by
  simp only [Dependency.ofEntry?, bind_eq_ok] at read
  obtain ⟨name, -, type, -, read⟩ := read
  split at read
  · cases read
  · simp only [bind_eq_ok] at read
    obtain ⟨text, -, read⟩ := read
    split at read
    · cases read
    · simp only [bind_eq_ok, pure_eq_ok, Option.some.injEq] at read
      obtain ⟨version, hasVersion, source, hasSource, rfl⟩ := read
      exact ⟨Value.hasOrderedSets_of_field ordered hasVersion,
        Value.hasOrderedSets_of_field ordered hasSource⟩

theorem hasOrderedSets_of_mem_unusedDependencies {dependencies : Value}
    (ordered : dependencies.hasOrderedSets = true)
    (found : unusedDependencies dependencies contents = .ok issues) (member : issue ∈ issues) :
    issue.toValue.hasOrderedSets = true := by
  obtain ⟨entries, entry, d, listed, inEntries, read, rfl⟩ :=
    exists_of_mem_unusedDependencies found member
  obtain ⟨version, source⟩ := Dependency.hasOrderedSets_of_ofEntry?
    (Value.hasOrderedSets_of_mem_members ordered listed entry inEntries) read
  refine Issue.hasOrderedSets_toValue rfl source rfl ?_
  simp [unusedDependency, version, source]

end

namespace QualityFindings

variable {i : QualityInput} {references : References} {settings : Settings} {findings : QualityFindings}

/-- What a finding quotes is a text, a number or a field of what the findings are drawn from. -/
theorem hasOrderedSets_of_mem_categories (outlines : i.outlines.hasOrderedSets = true)
    (dependencies : i.dependencies.hasOrderedSets = true)
    (declared : ∀ symbol ∈ i.declared.functions ++ i.declared.methods ++ i.declared.classes,
      symbol.IsOrdered)
    (found : ofInput i references settings = .ok findings) :
    ∀ category ∈ findings.categories, ∀ issue ∈ category.2, issue.toValue.hasOrderedSets = true := by
  simp only [ofInput, bind_eq_ok, pure_eq_ok] at found
  obtain ⟨functions, foundFunctions, methods, foundMethods, classes, foundClasses, imports,
    foundImports, ofDependencies, foundDependencies, large, foundLarge, comments, foundComments,
    complexity, -, rfl⟩ := found
  simp only [categories, List.forall_mem_cons]
  -- One goal for each category, in the order in which they are listed.
  refine ⟨?_, ?_, ?_, ?_, ?_, ?_, ?_, by simp⟩
  · intro issue member
    obtain ⟨symbol, inSymbols, rfl, -⟩ := mem_unusedSymbols foundFunctions member
    exact (declared symbol (by simp [inSymbols])).unusedSymbol
  · intro issue member
    obtain ⟨symbol, inSymbols, rfl, -⟩ := mem_unusedSymbols foundMethods member
    exact (declared symbol (by simp [inSymbols])).unusedSymbol
  · intro issue member
    obtain ⟨symbol, inSymbols, rfl⟩ := exists_of_mem_unusedClasses foundClasses member
    exact (declared symbol (by simp [inSymbols])).unusedClass _
  · exact fun issue member => hasOrderedSets_of_mem_unusedImports outlines foundImports member
  · exact fun issue member => hasOrderedSets_of_mem_unusedDependencies dependencies foundDependencies member
  · exact fun issue member => hasOrderedSets_of_mem_largeFunctions outlines foundLarge member
  · intro issue member
    obtain ⟨⟨path, content⟩, -, ofFile, foundHere, inFile⟩ := exists_of_mem_flatten foundComments member
    obtain ⟨run, -, rfl⟩ := exists_of_mem_commentedCode foundHere inFile
    refine Issue.hasOrderedSets_toValue rfl rfl rfl ?_
    simp only [CommentRun.issue, List.forall_mem_cons]
    exact ⟨rfl, rfl, by simp⟩

theorem hasOrderedSets_toValue (ordered : ∀ category ∈ findings.categories, ∀ issue ∈ category.2,
    issue.toValue.hasOrderedSets = true) : findings.toValue.hasOrderedSets = true := by
  have listed : ∀ issues : List Issue, (∀ issue ∈ issues, issue.toValue.hasOrderedSets = true) →
      (Value.list (issues.map Issue.toValue)).hasOrderedSets = true := by
    intro issues each
    exact Value.haveOrderedSets_iff.mpr (List.forall_mem_map.mpr each)
  have summary : findings.summary.hasOrderedSets = true := by
    refine Value.entriesHaveOrderedSets_iff.mpr ?_
    simp only [List.forall_mem_append, List.forall_mem_cons, List.forall_mem_map]
    refine ⟨⟨⟨rfl, by simp⟩, fun category _ => rfl⟩, rfl, ?_, by simp⟩
    exact Value.entriesHaveOrderedSets_iff.mpr (List.forall_mem_map.mpr fun severity _ => rfl)
  have complexity : (Value.list (findings.complexity.map ComplexityRecord.toValue)).hasOrderedSets
      = true := by
    refine Value.haveOrderedSets_iff.mpr (List.forall_mem_map.mpr fun record _ => ?_)
    refine Value.entriesHaveOrderedSets_iff.mpr ?_
    simp only [List.forall_mem_cons]
    refine ⟨rfl, rfl, rfl, rfl, ?_, by simp⟩
    exact Value.entriesHaveOrderedSets_iff.mpr (List.forall_mem_map.mpr fun row _ => rfl)
  refine Value.entriesHaveOrderedSets_iff.mpr ?_
  simp only [List.forall_mem_append, List.forall_mem_cons, List.forall_mem_map]
  refine ⟨⟨summary, listed _ fun issue member => ?_, complexity, by simp⟩,
    fun category member => listed _ (ordered category member)⟩
  obtain ⟨category, inCategories, inCategory⟩ := List.mem_flatMap.mp (List.mem_mergeSort.mp member)
  exact ordered category inCategories issue inCategory

theorem hasOrderedSets_of_delta {context : StageContext} {snapshot : Value}
    (ordered : ∀ part ≠ recordKey, ∀ v, snapshot.get? part = some v → v.hasOrderedSets = true)
    {delta : Entries} (returned : (run context snapshot).result.delta? = some delta) :
    (Value.map delta).hasOrderedSets = true := by
  obtain ⟨i, references, findings, read, found, rfl⟩ := exists_of_delta returned
  simp only [QualityInput.ofSnapshot, bind_eq_ok, pure_eq_ok] at read
  obtain ⟨contents, -, files, -, outlines, readOutlines, dependencies, readDependencies, obfuscated, -,
    declared, readDeclared, rfl⟩ := read
  have orderedOutlines := hasOrderedSets_of_partField (ordered _ (by decide)) readOutlines
  have orderedDependencies := hasOrderedSets_of_partField (ordered _ (by decide)) readDependencies
  have orderedFindings := hasOrderedSets_toValue (hasOrderedSets_of_mem_categories orderedOutlines
    orderedDependencies (DeclaredSymbols.isOrdered_of_ofOutlines orderedOutlines readDeclared) found)
  simp [Value.hasOrderedSets, Value.entriesHaveOrderedSets, orderedFindings]

end QualityFindings

/-! ## Stages -/

theorem merges_of_builtin (context : StageContext) (analyzedAt : String) {stage : Stage}
    (builtin : stage ∈ builtinStages) : stage.Merges context analyzedAt := by
  intro outcomes delta returned
  simp only [builtinStages, List.mem_cons, List.not_mem_nil, or_false] at builtin
  -- Only findings quote what was handed on; whatever else a stage publishes is plain.
  have single : ∀ {part : String} {v : Value}, v.isPlain = true →
      (Value.map [(part, v)]).hasOrderedSets = true := by
    intro part v plain
    simp [Value.hasOrderedSets, Value.entriesHaveOrderedSets, Value.hasOrderedSets_of_isPlain plain]
  rcases builtin with rfl | rfl | rfl | rfl | rfl | rfl
  · obtain ⟨catalog, surveyed, rfl⟩ := Cataloguing.exists_of_delta returned
    refine Value.entriesHaveOrderedSets_iff.mpr ?_
    simp only [Cataloguing.delta, List.forall_mem_cons]
    exact ⟨Value.hasOrderedSets_of_isPlain (Catalog.leavesAsIs_toValue surveyed.isOfFile).plain,
      Value.hasOrderedSets_of_isPlain (isPlain_contentEntries _), by simp⟩
  · obtain ⟨profile, contents, profiled, rfl⟩ := StackProfile.exists_of_delta returned
    exact single profiled.isPlain
  · obtain ⟨sources, -, rfl⟩ := ProjectStructure.exists_of_delta returned
    exact single (ProjectStructure.leavesAsIs_toValue _).plain
  · exact QualityFindings.hasOrderedSets_of_delta
      (fun part different v here => hasOrderedSets_of_snapshotAfter different here) returned
  · have result := StageRun.delta?_ofResult.mp returned
    simp only [bind_eq_ok, pure_eq_ok] at result
    obtain ⟨found, -, rfl⟩ := result
    exact single found.leavesAsIs_toValue.plain
  · have result := StageRun.delta?_ofResult.mp returned
    simp only [bind_eq_ok, pure_eq_ok] at result
    obtain ⟨found, assessed, rfl⟩ := result
    exact single (Assessment.leavesAsIs_of_ofSnapshot assessed).plain

theorem Analysis.undisturbed_of_builtin {a : Analysis} {context : StageContext} {stages : List Stage}
    (described : context.Described) (root : context.HasRoot)
    (builtin : ∀ stage ∈ stages, stage ∈ builtinStages) (notCancelled : a.isCancelled = false)
    (neverCancels : ∀ listener, a.listener = some listener →
      ∀ earlier event, (listener.react earlier event).cancels = false)
    (tells : Session.TellsTime a.session.times) : a.Undisturbed context stages where
  notCancelled := notCancelled
  neverCancels := neverCancels
  tells := tells
  ordinary := fun stage member => ordinary_of_builtin described root (builtin stage member)
  merges := fun stage member => merges_of_builtin context a.around.analyzedAt (builtin stage member)

/-! ## Directories -/

theorem directoryContext_described (entries : List (String × FileNode)) :
    (directoryContext entries).Described where
  numbers := ⟨⟨_, rfl⟩, ⟨_, rfl⟩, ⟨_, rfl⟩, ⟨_, rfl⟩⟩
  excludePaths := ⟨[], rfl⟩
  excludedFolders := ⟨[], rfl⟩
  projectType := ⟨"auto", rfl⟩
  framework := ⟨none, rfl⟩

theorem Analysis.exists_report_ofDirectory {stages : List Stage} (accepted : orderError? stages = none)
    (builtin : ∀ stage ∈ stages, stage ∈ builtinStages) (entries : List (String × FileNode)) :
    ∃ report, (ofDirectory stages entries).run.result = .ok report := by
  obtain ⟨opened, begins⟩ := ofDirectory_comesTo accepted entries
  refine Undisturbed.exists_report (undisturbed_of_builtin (directoryContext_described entries)
    ⟨_, _, find?_app rfl []⟩ builtin rfl (by simp [ofDirectory]) ?_) begins
  simp only [Session.TellsTime, session, ofDirectory, Session.times, Session.start, List.isEmpty_cons,
    Bool.false_eq_true, ↓reduceIte, List.mem_singleton, forall_eq]
  exact ⟨0, rfl⟩

end Surveyor
