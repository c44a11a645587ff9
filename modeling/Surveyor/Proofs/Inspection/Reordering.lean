import Mathlib.Data.List.Perm.Basic
import Surveyor.Inspection.Builtin
import Surveyor.Proofs.Inspection.Readings
import Surveyor.Proofs.Inspection.ReportedParts
import Surveyor.Proofs.Quality.DeadCode
import Surveyor.Proofs.Quality.Footprint

/-! # The order in which files are listed

A snapshot lists texts, records and outlines in the order in which the project was walked. No stage
that reads them lets this order through: what it publishes and the steps it takes are the same for
every order. Each loop forgets the order in one of three ways: it sorts by paths of their own, it asks
only whether something occurs, or it adds up. One lemma for each loop says which.
-/

namespace Surveyor

/-! ## Texts in another order -/

theorem lookup_eq_of_perm {α : Type} {entries others : List (String × α)}
    (reordered : entries.Perm others) (distinct : (entries.map (·.1)).Nodup) (key : String) :
    entries.lookup key = others.lookup key := by
  induction reordered with
  | nil => rfl
  | cons entry _ inductionHypothesis =>
    obtain ⟨name, value⟩ := entry
    rw [List.lookup_cons, List.lookup_cons, inductionHypothesis (List.nodup_cons.mp distinct).2]
  | swap first second rest =>
    obtain ⟨name, value⟩ := first
    obtain ⟨otherName, other⟩ := second
    have different : otherName ≠ name := by
      intro same
      simp [same] at distinct
    simp only [List.lookup_cons]
    by_cases isFirst : key = name
    · rw [isFirst, beq_eq_false_iff_ne.mpr different.symm, beq_self_eq_true]
    · rw [beq_eq_false_iff_ne.mpr isFirst]
  | trans first _ firstHypothesis secondHypothesis =>
    rw [firstHypothesis distinct, secondHypothesis ((first.map _).nodup_iff.mp distinct)]

namespace Contents

variable {contents others : Contents}

theorem sorted_eq_of_perm (reordered : contents.Perm others)
    (distinct : (contents.map (·.1)).Nodup) : contents.sorted = others.sorted :=
  Value.mergeSort_name_eq_of_perm reordered fun _ inContents _ alsoInContents same =>
    List.inj_on_of_nodup_map distinct inContents alsoInContents same

theorem filled_eq_of_perm (reordered : contents.Perm others)
    (distinct : (contents.map (·.1)).Nodup) {skip skipToo : List String} (skipped : skip.Perm skipToo) :
    contents.filled skip = others.filled skipToo := by
  simp only [filled, sorted_eq_of_perm reordered distinct, skipped.contains_eq]

theorem filledAt?_eq_of_perm (reordered : contents.Perm others)
    (distinct : (contents.map (·.1)).Nodup) (path : Value) :
    contents.filledAt? path = others.filledAt? path :=
  filledAt?_congr fun name _ => lookup_eq_of_perm reordered distinct name

end Contents

section

variable {contents others : Contents}

theorem hasDynamicLoading_eq_of_perm (reordered : contents.Perm others) :
    hasDynamicLoading contents = hasDynamicLoading others := by
  rw [hasDynamicLoading, hasDynamicLoading, reordered.any_eq]

theorem findManifest?_eq_of_perm (reordered : contents.Perm others)
    (distinct : (contents.map (·.1)).Nodup) (fileName : String) :
    findManifest? contents fileName = findManifest? others fileName := by
  rw [findManifest?, findManifest?]
  refine congrArg List.head? (Value.mergeSort_eq_of_perm ?_ ?_ (reordered.filter _) ?_)
  · intro a b c first second
    exact isRootward_trans first second
  · intro a b
    exact isRootward_total a.1 b.1
  · intro a inContents b alsoInContents first second
    -- Paths that are as close to the root as each other are the same.
    have samePath : a.1 = b.1 := by
      rw [isRootward_iff] at first second
      rcases first with less | ⟨sameDepth, atMost⟩
      · omega
      · rcases second with less | ⟨-, atLeast⟩
        · omega
        · exact String.le_antisymm atMost atLeast
    exact List.inj_on_of_nodup_map distinct (List.mem_filter.mp inContents).1
      (List.mem_filter.mp alsoInContents).1 samePath

theorem sourcesOf_eq_of_perm (reordered : contents.Perm others)
    (distinct : (contents.map (·.1)).Nodup) (extensions : List String) {skip skipToo : List String}
    (skipped : skip.Perm skipToo) :
    StackProfile.sourcesOf contents extensions skip
      = StackProfile.sourcesOf others extensions skipToo := by
  simp only [StackProfile.sourcesOf, Contents.sorted_eq_of_perm reordered distinct,
    skipped.contains_eq]

end

/-! ## Records in another order -/

namespace Value

/-- The same value, or the same members or entries in another order. -/
inductive Reordered : Value → Value → Prop
  | same (v : Value) : Reordered v v
  | list {items others : List Value} (reordered : items.Perm others) :
      Reordered (.list items) (.list others)
  | tuple {items others : List Value} (reordered : items.Perm others) :
      Reordered (.tuple items) (.tuple others)
  | map {entries others : Entries} (reordered : entries.Perm others) :
      Reordered (.map entries) (.map others)
  | view {entries others : Entries} (reordered : entries.Perm others) :
      Reordered (.view entries) (.view others)

namespace Reordered

variable {v w : Value}

theorem symm (reordered : v.Reordered w) : w.Reordered v := by
  cases reordered with
  | same => exact .same _
  | list reordered => exact .list reordered.symm
  | tuple reordered => exact .tuple reordered.symm
  | map reordered => exact .map reordered.symm
  | view reordered => exact .view reordered.symm

theorem isGiven_eq (reordered : v.Reordered w) : v.isGiven = w.isGiven := by
  cases reordered with
  | same => rfl
  | list reordered | tuple reordered | map reordered | view reordered =>
    simp only [isGiven, reordered.isEmpty_eq]

theorem orElse (reordered : v.Reordered w) (default : Value) :
    (v.orElse default).Reordered (w.orElse default) := by
  rw [Value.orElse, Value.orElse, reordered.isGiven_eq]
  split
  · exact reordered
  · exact .same default

theorem members_alike (reordered : v.Reordered w) : EndAlike List.Perm v.members w.members := by
  cases reordered with
  | same => exact (EndAlike.refl _).mono fun same => same ▸ .refl _
  | list reordered | tuple reordered => exact .succeed reordered
  | map reordered | view reordered => exact .succeed (reordered.map _)

end Reordered

theorem entries_orElse (v : Value) : (v.orElse (.map [])).entries = v.entries := by
  unfold Value.orElse
  split
  · rfl
  · next absent => cases v <;> simp_all [entries, isGiven]

/-- The two values differ at most in the order of what is under a key. -/
def ReorderedUnder (key : String) (v w : Value) : Prop :=
  v.AgreeBut [key] w ∧ (v.get key).Reordered (w.get key)

end Value

namespace Snapshot

/-- The snapshots differ at most in the order of their texts, catalogued files and outlines. -/
structure Reordered (a b : Value) : Prop where
  elsewhere : a.AgreeBut ["_file_contents", "file_system", "code_structure"] b
  contents : (a.get "_file_contents").Reordered (b.get "_file_contents")
  files : (a.get "file_system").ReorderedUnder "files" (b.get "file_system")
  outlines : (a.get "code_structure").ReorderedUnder "files" (b.get "code_structure")

/-- Every path of the records that have one is a string, and no other record has it. -/
def HasDistinctPaths (records : List Value) : Prop :=
  ∃ paths : List String,
    records.filterMap (·.get? "path") = paths.map .str ∧ paths.Nodup

variable {a b : Value}

theorem partField_alike {keys : List String} (agree : a.AgreeBut keys b) {part key : String}
    (reordered : (a.get part).ReorderedUnder key (b.get part)) :
    EndAlike Value.Reordered (partField a part key) (partField b part key) := by
  rw [partField, partField]
  refine (agree.field_alike reordered).bind fun v w related => ?_
  obtain ⟨partsAgree, underKey⟩ := related
  rw [← Value.get_orElse v, ← Value.get_orElse w] at underKey
  refine (partsAgree.orElse.field_alike underKey).bind fun found other foundReordered => ?_
  exact .succeed (foundReordered.orElse _)

theorem contents_alike {keys : List String} (agree : a.AgreeBut keys b)
    (reordered : (a.get "_file_contents").Reordered (b.get "_file_contents"))
    (distinct : (a.get "_file_contents").entries.keys.Nodup) :
    EndAlike (fun c d : Contents => c.Perm d ∧ (c.map (·.1)).Nodup) (contents a) (contents b) := by
  have fields : EndAlike (fun v w : Value => v.Reordered w ∧ v.entries.keys.Nodup)
      (a.field "_file_contents") (b.field "_file_contents") := agree.field_alike ⟨reordered, distinct⟩
  rw [contents, contents]
  refine fields.bind fun v w related => ?_
  obtain ⟨valuesReordered, keysDistinct⟩ := related
  rw [← Value.entries_orElse] at keysDistinct
  have readReordered := valuesReordered.orElse (.map [])
  generalize v.orElse (.map []) = read at readReordered keysDistinct
  generalize w.orElse (.map []) = readToo at readReordered
  have keysOfTexts : ∀ entries : Entries, (textsOf entries).map (·.1) = entries.keys := by
    intro entries
    simp [textsOf, Entries.keys, Function.comp_def]
  -- Of values that may be reordered only mappings hold texts; any other value is refused on both sides.
  cases readReordered with
  | same =>
    cases read with
    | map entries | view entries => exact .succeed ⟨.refl _, (keysOfTexts entries).symm ▸ keysDistinct⟩
    | _ => exact .fail
  | list | tuple => exact .fail
  | @map entries _ permuted | @view entries _ permuted =>
    exact .succeed ⟨permuted.map _, (keysOfTexts entries).symm ▸ keysDistinct⟩

theorem obfuscated_alike {v w : Value} (reordered : v.Reordered w) :
    EndAlike List.Perm (obfuscated v) (obfuscated w) := by
  rw [obfuscated, obfuscated]
  refine reordered.members_alike.bind fun records others permuted => ?_
  refine (EndAlike.mapM_perm permuted obfuscatedPath?).bind fun marked markedToo markedPerm => ?_
  exact .succeed ((markedPerm.filterMap id).filterMap Value.str?)

theorem map_path_of_keyed {records : List Value} {keyed : List (Value × Value)}
    (keyedAll : records.mapM (fun o => do return (← o.entry "path", o)) = .ok keyed) :
    keyed.map (·.1) = records.filterMap (·.get? "path") := by
  induction records generalizing keyed with
  | nil =>
    cases keyedAll
    rfl
  | cons o rest inductionHypothesis =>
    simp only [List.mapM_cons, bind_eq_ok, pure_eq_ok] at keyedAll
    obtain ⟨_, ⟨path, hasPath, rfl⟩, others, keyedRest, rfl⟩ := keyedAll
    simp only [List.map_cons, List.filterMap_cons, Value.entry_eq_ok_iff.mp hasPath,
      inductionHypothesis keyedRest]

/-- Outlines with paths of their own have one order by path. -/
theorem outlinesByPath_alike {v w : Value} (reordered : v.Reordered w)
    (distinct : ∀ records, v.members = .ok records → HasDistinctPaths records) :
    EndAlike Eq (outlinesByPath v) (outlinesByPath w) := by
  rw [outlinesByPath, outlinesByPath]
  refine reordered.members_alike.remember.bind fun records others related => ?_
  obtain ⟨permuted, members, -⟩ := related
  obtain ⟨paths, hasPaths, nodup⟩ := distinct records members
  refine (EndAlike.mapM_perm permuted _).remember.bind fun keyed keyedToo keyedRelated => ?_
  obtain ⟨keyedPerm, keyedAll, -⟩ := keyedRelated
  have keys : keyed.map (·.1) = paths.map .str := (map_path_of_keyed keyedAll).trans hasPaths
  refine .of_eq (Value.sortedBy_eq_of_perm keyedPerm ?_ ?_)
  · intro entry member
    have inPaths : entry.1 ∈ paths.map Value.str := keys ▸ List.mem_map_of_mem member
    obtain ⟨name, -, same⟩ := List.mem_map.mp inPaths
    exact ⟨name, same.symm⟩
  · have keysNodup : (keyed.map (·.1)).Nodup := keys ▸ nodup.map fun _ _ same => Value.str.inj same
    intro entry inKeyed other alsoInKeyed same
    exact List.inj_on_of_nodup_map keysNodup inKeyed alsoInKeyed same

end Snapshot

/-! ## The profile of the technology stack -/

theorem LanguageShare.ofLines_eq_of_perm {files others : List (String × Int)}
    (reordered : files.Perm others) : ofLines files = ofLines others := by
  have sameShare : ∀ extension name, ofExtension files extension name
      = ofExtension others extension name := by
    intro extension name
    have own := reordered.filter (·.1 == extension)
    -- Adding up the lines does not depend on the order.
    have commutes : RightCommutative fun (n : Int) (file : String × Int) => n + file.2 :=
      ⟨fun n file other => by omega⟩
    simp only [ofExtension, own.length_eq, own.foldl_eq]
  simp only [ofLines, sameShare]

/-- The summaries differ at most in the order of what is only looked up. -/
structure FileSummary.Alike (s t : FileSummary) : Prop where
  obfuscated : s.obfuscated.Perm t.obfuscated
  names : s.names.Perm t.names
  languages : s.languages = t.languages

theorem LanguageShare.ofFiles_alike {v w : Value} (reordered : v.Reordered w) :
    EndAlike Eq (ofFiles v) (ofFiles w) := by
  rw [ofFiles, ofFiles]
  refine reordered.members_alike.bind fun records others permuted => ?_
  refine (EndAlike.mapM_perm permuted linesOf?).bind fun lines linesToo linesPerm => ?_
  exact .succeed (ofLines_eq_of_perm (linesPerm.filterMap id))

theorem FileSummary.ofFiles_alike {v w : Value} (reordered : v.Reordered w) :
    EndAlike Alike (ofFiles v) (ofFiles w) := by
  rw [ofFiles, ofFiles]
  refine (Snapshot.obfuscated_alike reordered).bind fun flagged flaggedToo flaggedPerm => ?_
  refine reordered.members_alike.bind fun records others permuted => ?_
  refine (EndAlike.mapM_perm permuted _).bind fun names namesToo namesPerm => ?_
  refine (LanguageShare.ofFiles_alike reordered).bind fun languages _ same => ?_
  exact .succeed ⟨flaggedPerm, namesPerm.filterMap _, same⟩

namespace StackProfile

variable {contents others : Contents}

theorem ofProject_eq_of_perm (reordered : contents.Perm others)
    (distinct : (contents.map (·.1)).Nodup) {s t : FileSummary} (alike : s.Alike t) (m : Manifests)
    (hint : Option String) : ofProject s contents m hint = ofProject t others m hint := by
  simp only [ofProject, frameworksOf, Framework.addIndicated, Surveyor.packageManager, configFilesOf,
    alike.languages, alike.names.contains_eq,
    sourcesOf_eq_of_perm reordered distinct _ alike.obfuscated]

theorem runWith_eq_of_perm (reordered : contents.Perm others)
    (distinct : (contents.map (·.1)).Nodup) {s t : FileSummary} (alike : s.Alike t) (hint : Value) :
    runWith hint s contents = runWith hint t others := by
  simp only [runWith, Manifests.ofContents, ManifestReading.ofContents,
    findManifest?_eq_of_perm reordered distinct, ofProject_eq_of_perm reordered distinct alike]

theorem readSnapshot_alike {a b : Value} (reordered : Snapshot.Reordered a b)
    (distinct : (a.get "_file_contents").entries.keys.Nodup) :
    EndAlike (fun x y => x.1.Alike y.1 ∧ x.2.Perm y.2 ∧ (x.2.map (·.1)).Nodup) (readSnapshot a)
      (readSnapshot b) := by
  rw [readSnapshot, readSnapshot]
  refine (Snapshot.partField_alike reordered.elsewhere reordered.files).bind
    fun files filesToo filesReordered => ?_
  refine (Snapshot.contents_alike reordered.elsewhere reordered.contents distinct).bind
    fun contents contentsToo permuted => ?_
  refine (FileSummary.ofFiles_alike filesReordered).bind fun summary summaryToo alike => ?_
  exact .succeed ⟨alike, permuted⟩

theorem run_looksLike {a b : Value} (reordered : Snapshot.Reordered a b)
    (distinct : (a.get "_file_contents").entries.keys.Nodup) (context : StageContext) :
    (run context a).LooksLike (run context b) := by
  have read := readSnapshot_alike reordered distinct
  unfold run
  generalize readSnapshot a = first at read ⊢
  generalize readSnapshot b = second at read ⊢
  cases read with
  | fail => exact ⟨rfl, rfl⟩
  | @succeed x y related =>
    obtain ⟨summary, contents⟩ := x
    obtain ⟨summaryToo, others⟩ := y
    obtain ⟨alike, permuted, nodup⟩ := related
    have same := runWith_eq_of_perm permuted nodup alike context.project.framework
    exact ⟨congrArg StageRun.steps same, congrArg (·.result.delta?) same⟩

end StackProfile

/-! ## Key locations -/

namespace Locations

theorem sortStrings_eq_of_perm {names others : List String} (reordered : names.Perm others) :
    Text.sortStrings names = Text.sortStrings others :=
  @Value.mergeSort_name_eq_of_perm String id names others reordered fun _ _ _ _ same => same

theorem ofProject_eq_of_perm {contents others : Contents} (reordered : contents.Perm others)
    (distinct : (contents.map (·.1)).Nodup) {paths pathsToo : List String}
    (pathsReordered : paths.Perm pathsToo) (projectType : String) :
    ofProject projectType paths contents = ofProject projectType pathsToo others := by
  simp only [ofProject, sortStrings_eq_of_perm pathsReordered, webhookEntryPoints,
    Surveyor.databaseFiles, Contents.sorted_eq_of_perm reordered distinct]

/-- Paths that could be sorted and used as texts were texts before. -/
theorem exists_names_of_sorted {paths sorted : List Value} {texts : List String}
    (sortedAll : Value.sortedBy id paths = .ok sorted)
    (read : sorted.mapM (·.textFor "replace") = .ok texts) {path : Value} (member : path ∈ paths) :
    ∃ name, path = .str name := by
  have inSorted := (Value.sortedBy_perm sortedAll).mem_iff.mpr member
  obtain ⟨text, -, isText⟩ := exists_result_of_mem read inSorted
  cases path with
  | str name => exact ⟨name, rfl⟩
  | _ => cases isText

theorem sortedPaths_of_reordered {v w : Value} (reordered : v.Reordered w) {sorted : List Value}
    {texts : List String} (found : sortedPaths v = .ok sorted)
    (read : sorted.mapM (·.textFor "replace") = .ok texts) : sortedPaths w = .ok sorted := by
  simp only [sortedPaths, bind_eq_ok] at found ⊢
  obtain ⟨records, members, paths, hasPaths, sortedAll⟩ := found
  obtain ⟨others, membersToo, permuted⟩ := reordered.members_alike.exists_ok members
  obtain ⟨pathsToo, hasPathsToo, pathsPerm⟩ := (EndAlike.mapM_perm permuted _).exists_ok hasPaths
  refine ⟨others, membersToo, pathsToo, hasPathsToo, ?_⟩
  rw [← Value.sortedBy_eq_of_perm pathsPerm]
  · exact sortedAll
  · intro path member
    exact exists_names_of_sorted sortedAll read member
  · intro _ _ _ _ same
    exact same

theorem ofSnapshot_alike {a b : Value} (reordered : Snapshot.Reordered a b)
    (distinct : (a.get "_file_contents").entries.keys.Nodup) (projectType : Value) :
    EndAlike Eq (ofSnapshot projectType a) (ofSnapshot projectType b) := by
  rw [ofSnapshot, ofSnapshot]
  refine (Snapshot.partField_alike reordered.elsewhere reordered.files).bind
    fun files others filesReordered => ?_
  refine (Snapshot.contents_alike reordered.elsewhere reordered.contents distinct).bind
    fun contents contentsToo related => ?_
  obtain ⟨permuted, nodup⟩ := related
  refine .of_ok_iff fun l => ?_
  simp only [bind_eq_ok, pure_eq_ok]
  constructor
  · rintro ⟨sorted, found, type, typed, texts, read, same⟩
    exact ⟨sorted, sortedPaths_of_reordered filesReordered found read, type, typed, texts, read,
      (ofProject_eq_of_perm permuted nodup (.refl _) type).symm.trans same⟩
  · rintro ⟨sorted, found, type, typed, texts, read, same⟩
    exact ⟨sorted, sortedPaths_of_reordered filesReordered.symm found read, type, typed, texts, read,
      (ofProject_eq_of_perm permuted nodup (.refl _) type).trans same⟩

end Locations

theorem StageRun.looksLike_ofResult {x y : Except ValueFault Entries} (alike : EndAlike Eq x y) :
    (ofResult x).LooksLike (ofResult y) := by
  cases alike with
  | succeed same =>
    cases same
    exact ⟨rfl, rfl⟩
  | fail => exact ⟨rfl, rfl⟩

/-! ## Unused and dead code -/

theorem QualityInput.ofSnapshot_alike {a b : Value} (reordered : Snapshot.Reordered a b)
    (distinctTexts : (a.get "_file_contents").entries.keys.Nodup)
    (distinctOutlines : Snapshot.HasDistinctPaths (Snapshot.listed a "code_structure")) :
    EndAlike (Alike Eq) (ofSnapshot a) (ofSnapshot b) := by
  rw [ofSnapshot, ofSnapshot]
  -- In the order in which the parts are read: texts, files, outlines, dependencies, minified files,
  -- declared symbols.
  refine (Snapshot.contents_alike reordered.elsewhere reordered.contents distinctTexts).bind
    fun contents others related => ?_
  obtain ⟨permuted, nodup⟩ := related
  refine (Snapshot.partField_alike reordered.elsewhere reordered.files).bind
    fun files filesToo filesReordered => ?_
  refine (Snapshot.partField_alike reordered.elsewhere reordered.outlines).remember.bind
    fun outlines outlinesToo outlinesRelated => ?_
  obtain ⟨outlinesReordered, readOutlines, -⟩ := outlinesRelated
  have byPath : EndAlike Eq (outlinesByPath outlines) (outlinesByPath outlinesToo) :=
    Snapshot.outlinesByPath_alike outlinesReordered fun records members =>
      Snapshot.listed_eq_of_members readOutlines members ▸ distinctOutlines
  have declaredAlike : EndAlike Eq (DeclaredSymbols.ofOutlines outlines)
      (DeclaredSymbols.ofOutlines outlinesToo) := byPath.bind_eq fun files => .refl _
  have techStack : a.field "tech_stack" = b.field "tech_stack" :=
    reordered.elsewhere.field_eq (by decide)
  refine (EndAlike.of_eq (Snapshot.partField_congr techStack "dependencies")).bind_eq
    fun dependencies => ?_
  refine (Snapshot.obfuscated_alike filesReordered).bind fun flagged flaggedToo flaggedPerm => ?_
  refine declaredAlike.bind fun declared declaredToo sameDeclared => .succeed ?_
  exact {
    files := Contents.filled_eq_of_perm permuted nodup flaggedPerm
    declared := sameDeclared
    dynamic := hasDynamicLoading_eq_of_perm permuted
    imports := unusedImports_alike byPath fun _ _ file _ =>
      Contents.filledAt?_eq_of_perm permuted nodup file.1
    sizes := largeFunctions_alike byPath fun _ _ file _ =>
      Contents.filledAt?_eq_of_perm permuted nodup file.1
    dependencies := by
      simp only [unusedDependencies, importingSources,
        Contents.filled_eq_of_perm permuted nodup (.refl [])]
      exact .refl _ }

/-! ## All three stages -/

/-- The order in which files are listed shows neither in what the stages return nor in the steps they
take. -/
theorem same_for_every_order {a b : Value} (reordered : Snapshot.Reordered a b)
    (distinctTexts : (a.get "_file_contents").entries.keys.Nodup)
    (distinctOutlines : Snapshot.HasDistinctPaths (Snapshot.listed a "code_structure"))
    (context : StageContext) :
    ∀ stage ∈ [Stage.stackProfile, .qualityScan, .locations],
      (stage.run context a).LooksLike (stage.run context b) := by
  intro stage member
  simp only [List.mem_cons, List.not_mem_nil, or_false] at member
  rcases member with rfl | rfl | rfl
  · exact StackProfile.run_looksLike reordered distinctTexts context
  · have inputs := QualityInput.ofSnapshot_alike reordered distinctTexts distinctOutlines
    have runs := QualityFindings.run_alike inputs context
    exact (runs.mono QualityFindings.Alike.eq).looksLike
  · have found := Locations.ofSnapshot_alike reordered distinctTexts context.project.projectType
    exact StageRun.looksLike_ofResult (found.bind_eq fun locations => .refl _)

def listing (sources : List SourceFile) : Value :=
  .map [("_file_contents", .map (sources.map fun f => (f.path, .str f.content))),
    ("file_system", .map [("files", .list (sources.map fun f =>
      .map [("path", .str f.path), ("name", .str f.path), ("extension", .str ".js"),
        ("lines", .int 1), ("obfuscated", .bool f.isObfuscated)]))]),
    ("code_structure", .map [("files", frozenOutlines (ProjectStructure.ofSources sources).outlines)])]

theorem reordered_listing {sources others : List SourceFile} (reordered : sources.Perm others) :
    Snapshot.Reordered (listing sources) (listing others) where
  elsewhere := .mappings rfl rfl fun key outside => by
    simp only [List.mem_cons, List.not_mem_nil, not_or, or_false] at outside
    simp [listing, Value.get?, List.lookup_cons, beq_eq_false_iff_ne.mpr outside.1,
      beq_eq_false_iff_ne.mpr outside.2.1, beq_eq_false_iff_ne.mpr outside.2.2]
  contents := .map (reordered.map _)
  files := by
    refine ⟨.mappings rfl rfl fun key outside => ?_, .list (reordered.map _)⟩
    have notFiles : (key == "files") = false := by simpa using outside
    simp [listing, Value.get, Value.get?, List.lookup_cons, notFiles]
  outlines := by
    refine ⟨.mappings rfl rfl fun key outside => ?_, ?_⟩
    · have notFiles : (key == "files") = false := by simpa using outside
      simp [listing, Value.get, Value.get?, List.lookup_cons, notFiles]
    · show (frozenOutlines _).Reordered (frozenOutlines _)
      rw [frozenOutlines, frozenOutlines, Value.freeze, Value.freeze, Value.freezeItems_eq_map,
        Value.freezeItems_eq_map]
      exact .tuple (((reordered.filterMap _).map _).map _)

/-- A function that nothing calls, and a call of something else. -/
def twoSources : List SourceFile :=
  [⟨"b.js", .script, "bar()", false⟩, ⟨"a.js", .script, "function foo() \x7b\x7d", false⟩]

theorem twoSources_same_backwards :
    (∃ times, ReportsUnused (Stage.qualityScan.run QualityFindings.plainContext (listing twoSources))
        "foo" times)
      ∧ ∀ stage ∈ [Stage.stackProfile, .qualityScan, .locations],
        (stage.run QualityFindings.plainContext (listing twoSources)).LooksLike
          (stage.run QualityFindings.plainContext (listing twoSources.reverse)) := by
  have seen : Shows (listing twoSources) twoSources := {
    plain := by simp [twoSources]
    contents := rfl
    files := ⟨_, rfl, rfl⟩
    outlines := rfl
    dependencies := ⟨_, _, rfl, rfl⟩ }
  have numbers : QualityFindings.plainContext.settings.NumbersGiven :=
    ⟨⟨_, rfl⟩, ⟨_, rfl⟩, ⟨_, rfl⟩, ⟨_, rfl⟩⟩
  obtain ⟨_, -, reports⟩ := QualityFindings.run_reports seen numbers
  refine ⟨⟨_, reports "foo"⟩, ?_⟩
  exact same_for_every_order (reordered_listing (List.reverse_perm _).symm) (by decide)
    ⟨["b.js", "a.js"], rfl, by decide⟩ _

end Surveyor
