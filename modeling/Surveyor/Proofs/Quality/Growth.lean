import Surveyor.Proofs.Inspection.Readings
import Surveyor.Proofs.Quality.Consistency
import Surveyor.Proofs.Quality.Footprint

/-! # Adding a file

A file that is added to the texts of a snapshot, and has no outline, brings names into use and imports
packages, and takes nothing away. So nothing becomes unused that was not: the functions, methods,
classes and dependencies without a use are some of those before, in the same order. A class may turn
from a warning into a note, since the added file may load classes by computed names; its name and its
place stay.
-/

namespace Surveyor

/-! ## An added entry -/

/-- The second list is the first with an entry of the key put in somewhere. -/
def Gains {α : Type} (key : String) (entries others : List (String × α)) : Prop :=
  ∃ before value after, entries = before ++ after ∧ others = before ++ (key, value) :: after

namespace Gains

variable {α : Type} {key : String} {entries others : List (String × α)}

theorem subset (gains : Gains key entries others) : entries ⊆ others := by
  obtain ⟨before, value, after, rfl, rfl⟩ := gains
  intro entry member
  simp only [List.mem_append, List.mem_cons] at member ⊢
  rcases member with early | late
  · exact .inl early
  · exact .inr (.inr late)

theorem lookup_eq (gains : Gains key entries others) {name : String} (other : name ≠ key) :
    entries.lookup name = others.lookup name := by
  obtain ⟨before, value, after, rfl, rfl⟩ := gains
  rw [List.lookup_append, List.lookup_append, List.lookup_cons, beq_eq_false_iff_ne.mpr other]

theorem mapValues {β : Type} (gains : Gains key entries others) (f : α → β) :
    Gains key (entries.map fun (name, value) => (name, f value))
      (others.map fun (name, value) => (name, f value)) := by
  obtain ⟨before, value, after, rfl, rfl⟩ := gains
  exact ⟨_, f value, _, List.map_append, List.map_append⟩

end Gains

/-- A mapping gains an entry of the key; what is not given is a mapping without entries. -/
inductive Value.Gains (key : String) : Value → Value → Prop
  | map {entries others : Entries} (gains : Surveyor.Gains key entries others) :
      Value.Gains key (.map entries) (.map others)
  | view {entries others : Entries} (gains : Surveyor.Gains key entries others) :
      Value.Gains key (.view entries) (.view others)
  | first {v : Value} (absent : v.isGiven = false) (value : Value) :
      Value.Gains key v (.map [(key, value)])

namespace Snapshot

/-- The second snapshot has the text of one file more. -/
structure Gains (path : String) (a b : Value) : Prop where
  elsewhere : a.AgreeBut ["_file_contents"] b
  texts : (a.get "_file_contents").Gains path (b.get "_file_contents")

theorem Gains.contents_alike {path : String} {a b : Value} (gains : Gains path a b) :
    EndAlike (Surveyor.Gains path) (contents a) (contents b) := by
  rw [contents_eq, contents_eq]
  refine (gains.elsewhere.field_alike gains.texts).bind fun v w related => ?_
  cases related with
  | map gains =>
    rw [readTexts_map, readTexts_map]
    exact .succeed (gains.mapValues Value.asStr)
  | view gains =>
    rw [readTexts_view, readTexts_view]
    exact .succeed (gains.mapValues Value.asStr)
  | first absent value =>
    rw [readTexts_absent absent, readTexts_map]
    exact .succeed ⟨[], value.asStr, [], rfl, rfl⟩

end Snapshot

/-! ## Names in use and imports -/

theorem Contents.filled_subset {contents others : Contents} (more : contents ⊆ others)
    (skip : List String) : contents.filled skip ⊆ others.filled skip := by
  intro file member
  simp only [filled, sorted, List.mem_filter, List.mem_mergeSort] at member ⊢
  exact ⟨more member.1, member.2⟩

theorem References.mem_of_collect {files others : Contents} (more : files ⊆ others)
    {limit : Except ValueFault (Option Int)} {references later : References}
    (collected : collect files limit = .ok references) (collectedToo : collect others limit = .ok later)
    {n : String} (used : n ∈ references) : n ∈ later := by
  by_cases noFiles : files = []
  · -- Without files no name is in use.
    subst noFiles
    cases collected
    simp at used
  · obtain ⟨cut, limited, rfl⟩ := eq_ofFiles_of_collect collected noFiles
    have someFiles : others ≠ [] := fun none => noFiles (List.subset_nil.mp (none ▸ more))
    obtain ⟨_, limitedToo, rfl⟩ := eq_ofFiles_of_collect collectedToo someFiles
    rw [limited] at limitedToo
    cases limitedToo
    obtain ⟨file, inFiles, mentions⟩ := mem_ofFiles.mp used
    exact mem_ofFiles.mpr ⟨file, more inFiles, mentions⟩

section

variable {references later : References}

theorem isUnused_alike (more : ∀ n, n ∈ references → n ∈ later) (name : Value) :
    EndAlike (fun mark laterMark => laterMark = true → mark = true) (isUnused references name)
      (isUnused later name) := by
  rw [isUnused, isUnused]
  refine (EndAlike.refl name.asKey).bind_eq fun key => ?_
  cases key with
  | str n =>
    refine .succeed fun unused => ?_
    simp only [Bool.and_eq_true, Bool.not_eq_true', Std.HashSet.contains_eq_false_iff_not_mem]
      at unused ⊢
    exact ⟨unused.1, fun used => unused.2 (more n used)⟩
  | _ => exact .succeed fun unused => unused

/-- With more names in use, fewer symbols are left without a use. -/
theorem unreferenced_alike (more : ∀ n, n ∈ references → n ∈ later)
    (symbols : List DeclaredSymbol) :
    EndAlike (fun kept fewer => fewer.Sublist kept) (unreferenced symbols references)
      (unreferenced symbols later) := by
  have markedAlike : EndAlike
      (List.Forall₂ fun marked markedLater : DeclaredSymbol × Bool =>
        markedLater.1 = marked.1 ∧ (markedLater.2 = true → marked.2 = true))
      (symbols.mapM fun symbol => do return (symbol, ← isUnused references symbol.name))
      (symbols.mapM fun symbol => do return (symbol, ← isUnused later symbol.name)) :=
    EndAlike.mapM fun symbol _ =>
      (isUnused_alike more symbol.name).bind fun _ _ marks => .succeed ⟨rfl, marks⟩
  rw [unreferenced, unreferenced]
  refine markedAlike.bind fun marked markedLater related => .succeed ?_
  induction related with
  | nil => exact .slnil
  | @cons here laterHere _ _ marks _ inductionHypothesis =>
    obtain ⟨symbol, mark⟩ := here
    obtain ⟨_, laterMark⟩ := laterHere
    obtain ⟨rfl, marks⟩ := marks
    -- A symbol marked in the second list is marked in the first one.
    cases laterMark with
    | false =>
      cases mark with
      | false => exact inductionHypothesis
      | true => exact inductionHypothesis.cons _
    | true =>
      cases mark with
      | false => cases marks rfl
      | true => exact inductionHypothesis.cons_cons _

theorem unusedSymbols_alike (more : ∀ n, n ∈ references → n ∈ later)
    (symbols : List DeclaredSymbol) :
    EndAlike (fun found fewer => fewer.Sublist found) (unusedSymbols symbols references)
      (unusedSymbols symbols later) := by
  rw [unusedSymbols, unusedSymbols]
  exact (unreferenced_alike more symbols).bind fun _ _ fewer => .succeed (fewer.map unusedSymbol)

def Issue.place (issue : Issue) : Value × Value × Value := (issue.name, issue.file, issue.line)

theorem unusedClasses_alike (more : ∀ n, n ∈ references → n ∈ later)
    (symbols : List DeclaredSymbol) (dynamic dynamicLater : Value) :
    EndAlike (fun found fewer => (fewer.map Issue.place).Sublist (found.map Issue.place))
      (unusedClasses symbols references dynamic) (unusedClasses symbols later dynamicLater) := by
  rw [unusedClasses, unusedClasses]
  refine (unreferenced_alike more symbols).bind fun kept keptLater fewer => .succeed ?_
  have placeOfClass : ∀ dynamic, Issue.place ∘ unusedClass dynamic
      = fun symbol => (symbol.name, symbol.file, symbol.line) := fun _ => rfl
  rw [List.map_map, List.map_map, placeOfClass, placeOfClass]
  exact fewer.map _

end

theorem isImported_of_subset {sources others : List Subject} (more : sources ⊆ others) {d : Dependency}
    (imported : isImported sources d = true) : isImported others d = true := by
  rw [isImported, List.any_eq_true] at *
  obtain ⟨source, inSources, occurs⟩ := imported
  exact ⟨source, more inSources, occurs⟩

theorem importingSources_subset {contents others : Contents} (more : contents ⊆ others) :
    importingSources contents ⊆ importingSources others := by
  refine List.map_subset _ fun file member => ?_
  obtain ⟨filled, noManifest⟩ := List.mem_filter.mp member
  exact List.mem_filter.mpr ⟨Contents.filled_subset more [] filled, noManifest⟩

theorem unusedDependencies_alike {contents others : Contents} (more : contents ⊆ others)
    (dependencies : Value) :
    EndAlike (fun found fewer => fewer.Sublist found) (unusedDependencies dependencies contents)
      (unusedDependencies dependencies others) := by
  rw [unusedDependencies, unusedDependencies]
  refine (EndAlike.refl _).bind_eq fun entries => ?_
  refine (EndAlike.refl _).bind_eq fun visible => .succeed (List.Sublist.map _ ?_)
  refine List.monotone_filter_right _ fun d notImported => ?_
  simp only [Bool.not_eq_true'] at notImported ⊢
  cases imported : isImported (importingSources contents) d with
  | false => rfl
  | true =>
    rw [isImported_of_subset (importingSources_subset more) imported] at notImported
    exact notImported

/-! ## Findings -/

/-- The second input has more texts, none of them that of an outlined file. -/
structure QualityInput.Grows (i j : QualityInput) : Prop where
  contents : i.contents ⊆ j.contents
  obfuscated : i.obfuscated = j.obfuscated
  outlines : i.outlines = j.outlines
  dependencies : i.dependencies = j.dependencies
  declared : i.declared = j.declared
  texts : ∀ files, outlinesByPath i.outlines = .ok files → ∀ file ∈ files,
    i.contents.filledAt? file.1 = j.contents.filledAt? file.1

theorem QualityInput.grows_of_gains {path : String} {a b : Value} (gains : Snapshot.Gains path a b)
    (notOutlined : ¬ Snapshot.IsOutlined a path) :
    EndAlike Grows (ofSnapshot a) (ofSnapshot b) := by
  have sameField : ∀ part, part ≠ "_file_contents" → a.field part = b.field part := fun part other =>
    gains.elsewhere.field_eq (by simpa using other)
  rw [ofSnapshot, ofSnapshot]
  refine gains.contents_alike.bind fun (contents others : Contents) textsGain => ?_
  refine (EndAlike.of_eq (Snapshot.partField_congr (sameField "file_system" (by decide))
    "files")).bind_eq fun files => ?_
  refine (EndAlike.of_eq (Snapshot.partField_congr (sameField "code_structure" (by decide))
    "files")).remember.bind fun outlines _ outlinesRead => ?_
  obtain ⟨rfl, readOutlines, -⟩ := outlinesRead
  refine (EndAlike.of_eq (Snapshot.partField_congr (sameField "tech_stack" (by decide))
    "dependencies")).bind_eq fun dependencies => ?_
  refine (EndAlike.refl _).bind_eq fun skip => ?_
  refine (EndAlike.refl _).bind_eq fun declared => .succeed ?_
  -- Imports are looked for in outlined files only, and the text that was added belongs to none.
  refine ⟨textsGain.subset, rfl, rfl, rfl, rfl, fun byPath read file member => ?_⟩
  refine Contents.filledAt?_congr fun name isName => textsGain.lookup_eq fun isAdded => ?_
  obtain ⟨found, o⟩ := file
  obtain rfl : found = .str name := isName
  exact notOutlined (isAdded ▸
    Snapshot.isOutlined_of_mem_outlinesByPath readOutlines read member)

namespace QualityFindings

/-- Nothing is unused that was not. -/
structure Shrinks (f g : QualityFindings) : Prop where
  functions : g.unusedFunctions.Sublist f.unusedFunctions
  methods : g.unusedMethods.Sublist f.unusedMethods
  dependencies : g.unusedDependencies.Sublist f.unusedDependencies
  classes : (g.unusedClasses.map Issue.place).Sublist (f.unusedClasses.map Issue.place)

variable {i j : QualityInput} {references later : References} {settings : Settings}

theorem shrinks_of_grows (grows : i.Grows j) (more : ∀ n, n ∈ references → n ∈ later)
    {f g : QualityFindings} (found : ofInput i references settings = .ok f)
    (foundLater : ofInput j later settings = .ok g) : f.Shrinks g := by
  simp only [ofInput, bind_eq_ok, pure_eq_ok] at found foundLater
  obtain ⟨functions, foundFunctions, methods, foundMethods, classes, foundClasses, _, -,
    dependencies, foundDependencies, _, -, _, -, _, -, rfl⟩ := found
  obtain ⟨functionsLater, laterFunctions, methodsLater, laterMethods, classesLater, laterClasses, _, -,
    dependenciesLater, laterDependencies, _, -, _, -, _, -, rfl⟩ := foundLater
  rw [← grows.declared] at laterFunctions laterMethods laterClasses
  rw [← grows.dependencies] at laterDependencies
  exact {
    functions := (unusedSymbols_alike more _).related foundFunctions laterFunctions
    methods := (unusedSymbols_alike more _).related foundMethods laterMethods
    dependencies := (unusedDependencies_alike grows.contents _).related foundDependencies
      laterDependencies
    classes := (unusedClasses_alike more _ _ _).related foundClasses laterClasses }

/-- Where the numbers are given, findings are given exactly if those are that are drawn from outlines
and manifests. -/
theorem exists_ofInput_iff (numbers : settings.NumbersGiven) :
    (∃ f, ofInput i references settings = .ok f) ↔
      (∃ found, unusedSymbols i.declared.functions references = .ok found)
        ∧ (∃ found, unusedSymbols i.declared.methods references = .ok found)
        ∧ (∃ found, Surveyor.unusedClasses i.declared.classes references
          (.bool (Surveyor.hasDynamicLoading i.contents)) = .ok found)
        ∧ (∃ found, Surveyor.unusedImports i.outlines i.contents = .ok found)
        ∧ (∃ found, Surveyor.unusedDependencies i.dependencies i.contents = .ok found)
        ∧ ∃ found, Surveyor.largeFunctions i.outlines i.contents = .ok found := by
  constructor
  · rintro ⟨f, found⟩
    simp only [ofInput, bind_eq_ok, pure_eq_ok] at found
    obtain ⟨_, functions, _, methods, _, classes, _, imports, _, dependencies, _, large, -⟩ := found
    exact ⟨⟨_, functions⟩, ⟨_, methods⟩, ⟨_, classes⟩, ⟨_, imports⟩, ⟨_, dependencies⟩, ⟨_, large⟩⟩
  · rintro ⟨⟨_, functions⟩, ⟨_, methods⟩, ⟨_, classes⟩, ⟨_, imports⟩, ⟨_, dependencies⟩, ⟨_, large⟩⟩
    obtain ⟨f, found, -⟩ :=
      exists_ofInput numbers functions methods classes imports dependencies large
    exact ⟨f, found⟩

theorem exists_ofInput_iff_of_grows (grows : i.Grows j) (more : ∀ n, n ∈ references → n ∈ later)
    (numbers : settings.NumbersGiven) :
    (∃ f, ofInput i references settings = .ok f) ↔ ∃ g, ofInput j later settings = .ok g := by
  have imports := unusedImports_alike (.refl _) grows.texts
  have sizes := largeFunctions_alike (.refl _) grows.texts
  rw [exists_ofInput_iff numbers, exists_ofInput_iff numbers, ← grows.declared, ← grows.dependencies,
    ← grows.outlines, (unusedSymbols_alike more _).isOk_iff, (unusedSymbols_alike more _).isOk_iff,
    (unusedClasses_alike more _ _ (.bool (Surveyor.hasDynamicLoading j.contents))).isOk_iff,
    imports.isOk_iff, (unusedDependencies_alike grows.contents _).isOk_iff, sizes.isOk_iff]

/-! ## Runs -/

variable {context : StageContext} {snapshot : Value}

/-- What the stage needs to return findings, and what it returns then. -/
theorem delta?_run_eq_some_iff {delta : Entries} :
    (run context snapshot).result.delta? = some delta ↔
      ∃ i references f, QualityInput.ofSnapshot snapshot = .ok i
        ∧ i.references context.settings = .ok references
        ∧ (∃ every, context.settings.intervalFor i.referenceFiles.length = .ok every)
        ∧ ofInput i references context.settings = .ok f
        ∧ (∃ every, context.settings.intervalFor i.commentFiles.length = .ok every)
        ∧ delta = [("code_quality", f.toValue)] := by
  constructor
  · intro returned
    simp only [run] at returned
    split at returned
    · cases returned
    · next started =>
      split at returned
      · cases returned
      · next found =>
        cases returned
        simp only [lookUp, bind_eq_ok, pure_eq_ok] at started
        obtain ⟨i, read, _, ⟨references, collected, every, interval, rfl⟩, same⟩ := started
        cases same
        simp only [find, bind_eq_ok, pure_eq_ok] at found
        obtain ⟨f, found, everyComment, commentInterval, same⟩ := found
        cases same
        exact ⟨_, references, _, read, collected, ⟨every, interval⟩, found,
          ⟨everyComment, commentInterval⟩, rfl⟩
  · rintro ⟨i, references, f, read, collected, ⟨every, interval⟩, found, ⟨_, commentInterval⟩, rfl⟩
    rw [run_of_found read collected interval found commentInterval]
    rfl

theorem exists_delta_iff (numbers : context.settings.NumbersGiven) :
    (∃ delta, (run context snapshot).result.delta? = some delta) ↔
      ∃ i references, QualityInput.ofSnapshot snapshot = .ok i
        ∧ i.references context.settings = .ok references
        ∧ ∃ f, ofInput i references context.settings = .ok f := by
  simp only [delta?_run_eq_some_iff]
  constructor
  · rintro ⟨_, i, references, f, read, collected, _, found, _⟩
    exact ⟨i, references, read, collected, f, found⟩
  · rintro ⟨i, references, read, collected, f, found⟩
    exact ⟨_, i, references, f, read, collected, Settings.exists_intervalFor numbers.interval _, found,
      Settings.exists_intervalFor numbers.interval _, rfl⟩

theorem exists_references (numbers : settings.NumbersGiven) (i : QualityInput) :
    ∃ references, i.references settings = .ok references := by
  obtain ⟨cut, limited⟩ := numbers.limit
  rw [QualityInput.references, limited, References.collect_eq_ofFiles]
  exact ⟨_, rfl⟩

theorem mem_references_of_grows (grows : i.Grows j) (collected : i.references settings = .ok references)
    (collectedLater : j.references settings = .ok later) (n : String) (used : n ∈ references) :
    n ∈ later := by
  refine References.mem_of_collect ?_ collected collectedLater used
  rw [QualityInput.referenceFiles, QualityInput.referenceFiles, ← grows.obfuscated]
  exact Contents.filled_subset grows.contents _

/-- The lists under a key that two runs have published, seen in some way: the second one has some of
the first one's members, in the same order. -/
def ListShrinks {α : Type} (before after : StageRun) (key : String) (view : Value → α) : Prop :=
  ∃ old new, before.published? "code_quality" key = some (.list old)
    ∧ after.published? "code_quality" key = some (.list new)
    ∧ (new.map view).Sublist (old.map view)

def placeOf (issue : Value) : Option Value × Option Value × Option Value :=
  (issue.get? "name", issue.get? "file", issue.get? "line")

theorem placeOf_toValue (issue : Issue) :
    placeOf issue.toValue = (some issue.name, some issue.file, some issue.line) := by
  rw [placeOf, issue.get?_toValue rfl, issue.get?_toValue rfl, issue.get?_toValue rfl]

theorem published?_of_delta {run : StageRun} {f : QualityFindings}
    (returned : run.result.delta? = some [("code_quality", f.toValue)]) (key : String) :
    run.published? "code_quality" key = f.toValue.get? key := by
  rw [StageRun.published?, returned]
  rfl

theorem Shrinks.published {f g : QualityFindings} (shrinks : f.Shrinks g) {before after : StageRun}
    (returned : before.result.delta? = some [("code_quality", f.toValue)])
    (returnedLater : after.result.delta? = some [("code_quality", g.toValue)]) :
    (∀ key ∈ ["unused_functions", "unused_methods", "unused_dependencies"],
        ListShrinks before after key id)
      ∧ ListShrinks before after "unused_classes" placeOf := by
  have published : ∀ {key : String} {found fewer : List Issue},
      f.toValue.get? key = some (.list (found.map Issue.toValue)) →
        g.toValue.get? key = some (.list (fewer.map Issue.toValue)) → fewer.Sublist found →
        ListShrinks before after key id := by
    intro key found fewer here there sublist
    refine ⟨_, _, (published?_of_delta returned key).trans here,
      (published?_of_delta returnedLater key).trans there, ?_⟩
    simpa using sublist.map Issue.toValue
  constructor
  · simp only [List.forall_mem_cons, List.not_mem_nil, IsEmpty.forall_iff, implies_true, and_true]
    exact ⟨published rfl rfl shrinks.functions, published rfl rfl shrinks.methods,
      published rfl rfl shrinks.dependencies⟩
  · refine ⟨f.unusedClasses.map Issue.toValue, g.unusedClasses.map Issue.toValue,
      published?_of_delta returned _, published?_of_delta returnedLater _, ?_⟩
    have placeOfIssue : placeOf ∘ Issue.toValue
        = (fun place => (some place.1, some place.2.1, some place.2.2)) ∘ Issue.place := by
      funext issue
      exact placeOf_toValue issue
    rw [List.map_map, List.map_map, placeOfIssue, ← List.map_map, ← List.map_map]
    exact shrinks.classes.map _

/-- Adding a file without an outline makes nothing unused that was not: the unused functions, methods
and dependencies are some of those before, and so are the names and places of the unused classes. If
the numbers in the settings are given, findings are returned with the file exactly if they are without
it. -/
theorem added_file_leaves_old_code_used {path : String} {a b : Value}
    (gains : Snapshot.Gains path a b) (notOutlined : ¬ Snapshot.IsOutlined a path)
    (context : StageContext) :
    (∀ before after, (Stage.qualityScan.run context a).result.delta? = some before →
        (Stage.qualityScan.run context b).result.delta? = some after →
        (∀ key ∈ ["unused_functions", "unused_methods", "unused_dependencies"],
          ListShrinks (Stage.qualityScan.run context a) (Stage.qualityScan.run context b) key id)
        ∧ ListShrinks (Stage.qualityScan.run context a) (Stage.qualityScan.run context b)
          "unused_classes" placeOf)
      ∧ (context.settings.NumbersGiven →
        ((∃ before, (Stage.qualityScan.run context a).result.delta? = some before) ↔
          ∃ after, (Stage.qualityScan.run context b).result.delta? = some after)) := by
  have inputs := QualityInput.grows_of_gains gains notOutlined
  constructor
  · intro before after returned returnedLater
    obtain ⟨i, references, f, read, collected, -, found, -, rfl⟩ :=
      delta?_run_eq_some_iff.mp returned
    obtain ⟨j, later, g, readLater, collectedLater, -, foundLater, -, rfl⟩ :=
      delta?_run_eq_some_iff.mp returnedLater
    have grows := inputs.related read readLater
    have more := mem_references_of_grows grows collected collectedLater
    exact (shrinks_of_grows grows more found foundLater).published returned returnedLater
  · intro numbers
    refine (exists_delta_iff numbers).trans (Iff.trans ?_ (exists_delta_iff numbers).symm)
    constructor
    · rintro ⟨i, references, read, collected, given⟩
      obtain ⟨j, readLater, grows⟩ := inputs.exists_ok read
      obtain ⟨later, collectedLater⟩ := exists_references numbers j
      have more := mem_references_of_grows grows collected collectedLater
      exact ⟨j, later, readLater, collectedLater,
        (exists_ofInput_iff_of_grows grows more numbers).mp given⟩
    · rintro ⟨j, later, readLater, collectedLater, given⟩
      obtain ⟨i, read⟩ := inputs.isOk_iff.mpr ⟨j, readLater⟩
      have grows := inputs.related read readLater
      obtain ⟨references, collected⟩ := exists_references numbers i
      have more := mem_references_of_grows grows collected collectedLater
      exact ⟨i, references, read, collected,
        (exists_ofInput_iff_of_grows grows more numbers).mpr given⟩

def deadFunctionCalled : Value :=
  .map [("_file_contents", .map [("a.js", .str deadFunction.content), ("b.js", .str "foo()")]),
    ("code_structure", .map [("files",
      frozenOutlines (ProjectStructure.ofSources [deadFunction]).outlines)])]

theorem called_leaves_deadFunction :
    ListShrinks (Stage.qualityScan.run plainContext (snapshotOf [deadFunction]))
      (Stage.qualityScan.run plainContext deadFunctionCalled) "unused_functions" id := by
  have gains : Snapshot.Gains "b.js" (snapshotOf [deadFunction]) deadFunctionCalled := {
    elsewhere := .mappings rfl rfl fun key outside => by
      have notTexts : (key == "_file_contents") = false := by simpa using outside
      simp [snapshotOf, deadFunctionCalled, Value.get?, List.lookup_cons, notTexts]
    texts := .map ⟨[("a.js", .str deadFunction.content)], .str "foo()", [], rfl, rfl⟩ }
  have notOutlined : ¬ Snapshot.IsOutlined (snapshotOf [deadFunction]) "b.js" := by
    rintro ⟨o, member, hasPath⟩
    obtain rfl := List.mem_singleton.mp member
    have samePath : Value.str "a.js" = .str "b.js" := Option.some.inj hasPath
    simp at samePath
  obtain ⟨shrinks, together⟩ := added_file_leaves_old_code_used gains notOutlined plainContext
  have numbers : plainContext.settings.NumbersGiven := ⟨⟨_, rfl⟩, ⟨_, rfl⟩, ⟨_, rfl⟩, ⟨_, rfl⟩⟩
  have seen : Shows (snapshotOf [deadFunction]) [deadFunction] :=
    shows_snapshotOf (by simp) (by simp [deadFunction])
  obtain ⟨_, -, reports⟩ := run_reports seen numbers
  obtain ⟨fields, issues, result, -⟩ := reports "foo"
  have returned : (Stage.qualityScan.run plainContext (snapshotOf [deadFunction])).result.delta?
      = some [("code_quality", .map fields)] := congrArg StageResult.delta? result
  obtain ⟨after, returnedLater⟩ := (together numbers).mp ⟨_, returned⟩
  exact (shrinks _ after returned returnedLater).1 _ (by simp)

end QualityFindings

end Surveyor
