import Surveyor.Proofs.Inspection.Forms
import Surveyor.Proofs.Inspection.Stages
import Surveyor.Proofs.Quality.Published
import Surveyor.Proofs.Source.DeclarationLines
import Surveyor.Proofs.Stack.PlainProfile

/-! # What later stages see of earlier ones

A settled state holds the records of one survey, the outlines of some of these records, and the
dependencies of the manifests among them; where a stage failed or did not run, it holds none. Stages
see just these. A part that is missing and a list that is empty look the same to them, so what they
see is said by the members alone.
-/

namespace Surveyor

/-- A part of a state lists items under a key; a part that is missing lists none. -/
def Lists (state : Entries) (part key : String) (items : List Value) : Prop :=
  (state.lookup part = none ∧ items = [])
    ∨ ∃ entries, state.lookup part = some (.map entries) ∧ entries.lookup key = some (.list items)

section

variable {context : StageContext} {invoked : List (String × Value)} {stages : List Stage}
  {state : Entries} {stage : Stage} {snapshot : Value}

theorem Took.partField_eq (took : Took context invoked state stage snapshot) {part key : String}
    {items : List Value} (lists : Lists state part key items) (reads : part ∈ stage.reads)
    (different : part ≠ recordKey) :
    Snapshot.partField snapshot part key = .ok ((Value.list items).freeze.orElse (.list [])) := by
  have saw := took.saw part reads different
  rcases lists with ⟨missing, rfl⟩ | ⟨entries, present, listed⟩
  · rw [missing] at saw
    rw [Snapshot.partField, saw]
    rfl
  · have given : (Value.map entries).freeze.isGiven = true := by
      cases entries with
      | nil => cases listed
      | cons entry rest => rfl
    rw [present, Option.map_some, Option.getD_some] at saw
    simp only [Snapshot.partField, saw, bind, Except.bind, pure, Except.pure, Value.orElse, given,
      ↓reduceIte, Value.field_freeze listed]

theorem members_frozen (items : List Value) :
    ((Value.list items).freeze.orElse (.list [])).members = .ok (items.map Value.freeze) := by
  rw [Value.freeze, Value.freezeItems_eq_map]
  cases items with
  | nil => rfl
  | cons item rest => rfl

/-! ## Records -/

def contentsOf (records : List FileRecord) : Contents :=
  records.filterMap fun r => r.content.map fun content => (r.path, content)

theorem exists_record_of_mem_contentsOf {records : List FileRecord} {path content : String}
    (member : (path, content) ∈ contentsOf records) :
    ∃ record ∈ records, record.path = path ∧ record.content = some content := by
  obtain ⟨record, inRecords, same⟩ := List.mem_filterMap.mp member
  obtain ⟨_, read, pair⟩ := Option.map_eq_some_iff.mp same
  cases pair
  exact ⟨record, inRecords, rfl, read⟩

def contentEntries (contents : Contents) : Entries :=
  contents.map fun file => (file.1, .str file.2)

theorem isPlain_contentEntries (contents : Contents) :
    (Value.map (contentEntries contents)).isPlain = true := by
  rw [Value.isPlain_map]
  intro entry member
  obtain ⟨_, -, rfl⟩ := List.mem_map.mp member
  rfl

/-- The records of a state: those of the survey, or none without one. -/
inductive Catalogued (context : StageContext) (state : Entries) : List FileRecord → Prop
  | missing (noFiles : state.lookup "file_system" = none)
      (noContents : state.lookup "_file_contents" = none) : Catalogued context state []
  | surveyed {catalog : Catalog} (surveyed : Surveyed context catalog)
      (files : state.lookup "file_system" = some catalog.toValue)
      (contents : state.lookup "_file_contents"
        = some (.map (contentEntries (contentsOf catalog.files)))) :
      Catalogued context state catalog.files

theorem Surveyed.isOfFile {catalog : Catalog} (surveyed : Surveyed context catalog) :
    ∀ record ∈ catalog.files, record.IsOfFile := by
  obtain ⟨_, _, -, found⟩ := surveyed
  exact Catalog.isOfFile_of_survey found

theorem Settled.exists_catalogued (settled : Settled context invoked stages state)
    (builtin : ∀ stage ∈ stages, stage ∈ builtinStages) : ∃ records, Catalogued context state records := by
  have isBuiltin : Stage.cataloguing ∈ builtinStages := by simp [builtinStages]
  rcases settled.provided_cases builtin isBuiltin with missing | ⟨snapshot, delta, -, returned, left⟩
  · exact ⟨[], .missing (missing _ (by simp [Stage.cataloguing])) (missing _ (by simp [Stage.cataloguing]))⟩
  · obtain ⟨catalog, surveyed, rfl⟩ := Cataloguing.exists_of_delta returned
    have catalogPlain := (Catalog.leavesAsIs_toValue surveyed.isOfFile).plain
    refine ⟨catalog.files, .surveyed surveyed ?_ ?_⟩
    · rw [left _ (by simp [Stage.cataloguing])]
      exact congrArg some (Value.plainForm_of_isPlain catalogPlain)
    · rw [left _ (by simp [Stage.cataloguing])]
      exact congrArg some (Value.plainForm_of_isPlain (isPlain_contentEntries _))

namespace Catalogued

variable {records : List FileRecord}

theorem lists (catalogued : Catalogued context state records) :
    Lists state "file_system" "files" (records.map FileRecord.toValue) := by
  cases catalogued with
  | missing noFiles _ => exact .inl ⟨noFiles, rfl⟩
  | surveyed _ files _ => exact .inr ⟨_, files, rfl⟩

end Catalogued

/-- The records that a snapshot shows, with their contents. -/
structure ShowsRecords (snapshot : Value) (records : List FileRecord) : Prop where
  files : ∃ files, Snapshot.files snapshot = .ok files
    ∧ files.members = .ok (records.map fun r => r.toValue.freeze)
  contents : Snapshot.contents snapshot = .ok (contentsOf records)

theorem freezeEntries_contentEntries (contents : Contents) :
    Value.freezeEntries (contentEntries contents) = contentEntries contents := by
  induction contents with
  | nil => rfl
  | cons file rest inductionHypothesis =>
    show (file.1, .str file.2) :: Value.freezeEntries (contentEntries rest) = _
    rw [inductionHypothesis]
    rfl

theorem contents_of_field {contents : Contents}
    (saw : snapshot.field "_file_contents" = .ok (Value.map (contentEntries contents)).freeze) :
    Snapshot.contents snapshot = .ok contents := by
  have readBack : (contentEntries contents).map (fun entry => (entry.1, entry.2.asStr)) = contents := by
    rw [contentEntries, List.map_map]
    exact List.map_id'' (fun file => rfl) contents
  rw [Value.freeze, freezeEntries_contentEntries] at saw
  simp only [Snapshot.contents, saw, bind, Except.bind]
  cases contents with
  | nil => rfl
  | cons file rest => exact congrArg Except.ok readBack

theorem Took.showsRecords (took : Took context invoked state stage snapshot)
    {records : List FileRecord} (catalogued : Catalogued context state records)
    (readsFiles : "file_system" ∈ stage.reads) (readsContents : "_file_contents" ∈ stage.reads) :
    ShowsRecords snapshot records := by
  constructor
  · have members := members_frozen (records.map FileRecord.toValue)
    rw [List.map_map] at members
    exact ⟨_, took.partField_eq catalogued.lists readsFiles (by decide), members⟩
  · have saw := took.saw "_file_contents" readsContents (by decide)
    cases catalogued with
    | missing _ noContents =>
      rw [noContents] at saw
      rw [Snapshot.contents, saw]
      rfl
    | surveyed _ _ contents =>
      rw [contents] at saw
      exact contents_of_field saw

/-! ## Outlines -/

def Outline.IsOf (records : List FileRecord) (o : Outline) : Prop :=
  ∃ record ∈ records, ∃ content, record.path = o.path ∧ record.content = some content
    ∧ o.Placed (Text.ofString content)

/-- The source that a record is, with a content from among the contents. -/
def FileRecord.source? (contents : Contents) (r : FileRecord) : Option SourceFile :=
  match SourceKind.ofExtension? r.extension with
  | none => none
  | some kind => (contents.lookup r.path).map fun content => ⟨r.path, kind, content, r.isObfuscated⟩

theorem ofFile?_frozen (contents : Contents) (r : FileRecord) :
    SourceFile.ofFile? contents r.toValue.freeze = .ok (r.source? contents) := by
  have extension : r.toValue.freeze.field "extension" = .ok (.str r.extension) := rfl
  -- An empty extension does not count as given, but stands for itself.
  have text : ((Value.str r.extension).orElse (.str "")).textFor "lower" = .ok r.extension := by
    unfold Value.orElse
    split
    · rfl
    · next notGiven =>
      simp only [Value.isGiven, Bool.not_eq_true, Bool.not_eq_false'] at notGiven
      rw [String.isEmpty_iff.mp notGiven]
      rfl
  have path : r.toValue.freeze.entry "path" = .ok (.str r.path) := rfl
  have key : (Value.str r.path).asKey = .ok (.str r.path) := rfl
  have obfuscated : r.toValue.freeze.field "obfuscated" = .ok (.bool r.isObfuscated) := rfl
  simp only [SourceFile.ofFile?, FileRecord.source?, extension, text, path, key, obfuscated, bind,
    Except.bind, pure, Except.pure]
  cases SourceKind.ofExtension? r.extension with
  | none => rfl
  | some kind =>
    cases contents.lookup r.path with
    | none => rfl
    | some content => rfl

theorem ShowsRecords.sourcesOf_eq {records : List FileRecord} (shows_ : ShowsRecords snapshot records) :
    ProjectStructure.sourcesOf snapshot
      = .ok (records.filterMap (FileRecord.source? (contentsOf records))) := by
  obtain ⟨files, hasFiles, members⟩ := shows_.files
  have sources : (records.map fun r => r.toValue.freeze).mapM (SourceFile.ofFile? (contentsOf records))
      = .ok (records.map (FileRecord.source? (contentsOf records))) := by
    rw [List.mapM_map]
    exact mapM_eq_ok_map fun r _ => ofFile?_frozen (contentsOf records) r
  rw [ProjectStructure.sourcesOf, hasFiles, shows_.contents]
  simp only [bind, Except.bind, pure, Except.pure, SourceFile.ofFiles, members] at sources ⊢
  rw [sources]
  simp only [List.filterMap_map, Function.id_comp]

/-- A source takes its content from the contents, which are those of the records. -/
theorem exists_record_of_source? {records : List FileRecord} {r : FileRecord} {f : SourceFile}
    (isSource : r.source? (contentsOf records) = some f) :
    ∃ record ∈ records, record.path = f.path ∧ record.content = some f.content := by
  unfold FileRecord.source? at isSource
  split at isSource
  · cases isSource
  · obtain ⟨content, here, rfl⟩ := Option.map_eq_some_iff.mp isSource
    obtain ⟨_, _, split, -⟩ := List.lookup_eq_some_iff.mp here
    exact exists_record_of_mem_contentsOf (by rw [split]; simp)

theorem Outline.isOf_of_mem_sources {records : List FileRecord} :
    ∀ o ∈ (ProjectStructure.ofSources
      (records.filterMap (FileRecord.source? (contentsOf records)))).outlines, o.IsOf records := by
  intro o member
  obtain ⟨f, inSources, outlined⟩ := List.mem_filterMap.mp member
  obtain ⟨r, -, isSource⟩ := List.mem_filterMap.mp inSources
  obtain ⟨record, inRecords, samePath, read⟩ := exists_record_of_source? isSource
  unfold SourceFile.outline? at outlined
  split at outlined
  · cases outlined
  · cases outlined
    refine ⟨record, inRecords, f.content, ?_, read, placed_outline _ _ _⟩
    rw [samePath, path_outline]

theorem lists_outlines {structure_ : ProjectStructure}
    (left : state.lookup "code_structure"
      = (List.lookup "code_structure" [("code_structure", structure_.toValue)]).map Value.plainForm) :
    Lists state "code_structure" "files" (structure_.outlines.map Outline.toValue) := by
  have here : List.lookup "code_structure" [("code_structure", structure_.toValue)]
      = some structure_.toValue := rfl
  rw [here, Option.map_some, Value.plainForm_of_isPlain structure_.leavesAsIs_toValue.plain] at left
  exact .inr ⟨_, left, rfl⟩

theorem Settled.exists_outlines (settled : Settled context invoked stages state)
    (builtin : ∀ stage ∈ stages, stage ∈ builtinStages) {records : List FileRecord}
    (catalogued : Catalogued context state records) :
    ∃ outlines : List Outline, Lists state "code_structure" "files" (outlines.map Outline.toValue)
      ∧ ∀ o ∈ outlines, o.IsOf records := by
  have isBuiltin : Stage.structureScan ∈ builtinStages := by simp [builtinStages]
  have provides : "code_structure" ∈ Stage.structureScan.provides := by simp [Stage.structureScan]
  rcases settled.provided_cases builtin isBuiltin with missing | ⟨snapshot, delta, took, returned, left⟩
  · exact ⟨[], .inl ⟨missing _ provides, rfl⟩, by simp⟩
  · obtain ⟨sources, read, rfl⟩ := ProjectStructure.exists_of_delta returned
    have shows_ := took.showsRecords catalogued (by simp [Stage.structureScan])
      (by simp [Stage.structureScan])
    cases shows_.sourcesOf_eq.symm.trans read
    exact ⟨_, lists_outlines (left _ provides), Outline.isOf_of_mem_sources⟩

/-! ## Dependencies -/

/-- The record is that of the manifest of a kind that lies closest to the root, of those that were
read. -/
structure FileRecord.IsManifest (records : List FileRecord) (kind : ManifestKind) (record : FileRecord) :
    Prop where
  listed : record ∈ records
  found : ∃ content, record.content = some content
    ∧ findManifest? (contentsOf records) kind.fileName = some (record.path, content)

theorem mem_of_findManifest? {contents : Contents} {fileName path content : String}
    (found : findManifest? contents fileName = some (path, content)) :
    (path, content) ∈ contents ∧ Text.baseName path = fileName := by
  have member := List.mem_mergeSort.mp (List.mem_of_head? found)
  obtain ⟨inContents, named⟩ := List.mem_filter.mp member
  exact ⟨inContents, eq_of_beq named⟩

theorem FileRecord.IsManifest.baseName {records : List FileRecord} {kind : ManifestKind}
    {record : FileRecord} (isManifest : record.IsManifest records kind) :
    Text.baseName record.path = kind.fileName := by
  obtain ⟨content, -, found⟩ := isManifest.found
  exact (mem_of_findManifest? found).2

theorem exists_isManifest {records : List FileRecord} {kind : ManifestKind} {entries : Entries}
    (here : (ManifestReading.ofContents (contentsOf records) kind).entries = some entries) :
    ∃ record : FileRecord, record.IsManifest records kind := by
  cases entries_ofContents (contentsOf records) kind with
  | inl missing =>
    rw [missing.2] at here
    cases here
  | inr found =>
    obtain ⟨path, content, found, -⟩ := found
    obtain ⟨record, listed, rfl, hasContent⟩ :=
      exists_record_of_mem_contentsOf (mem_of_findManifest? found).1
    exact ⟨record, listed, content, hasContent, found⟩

/-- The published entry of a dependency quotes the name of a manifest that was read. -/
def IsDeclared (records : List FileRecord) (entry : Value) : Prop :=
  ∃ (kind : ManifestKind) (record : FileRecord) (name : String), record.IsManifest records kind
    ∧ entry.get? "name" = some (.str name) ∧ entry.get? "source" = some (.str kind.fileName)

theorem isDeclared_of_mem_dependencyEntries {records : List FileRecord} {kind : ManifestKind}
    {key : String} {type entry : Value} {skip : Bool}
    (member : entry ∈ dependencyEntries
      (.map (StackProfile.sectionOf (ManifestReading.ofContents (contentsOf records) kind).entries key)) type
      (.str kind.fileName) skip) : IsDeclared records entry := by
  obtain ⟨⟨name, version⟩, kept, rfl⟩ := List.mem_map.mp member
  have inSection : (name, version)
      ∈ StackProfile.sectionOf (ManifestReading.ofContents (contentsOf records) kind).entries key :=
    (List.mem_filter.mp kept).1
  -- A section with something in it is one of a manifest that was read.
  cases here : (ManifestReading.ofContents (contentsOf records) kind).entries with
  | none =>
    rw [here] at inSection
    cases inSection
  | some entries =>
    obtain ⟨record, isManifest⟩ := exists_isManifest here
    exact ⟨kind, record, name, isManifest, rfl, rfl⟩

theorem Profiled.isDeclared {records : List FileRecord} {profile : StackProfile} {contents : Contents}
    (profiled : Profiled snapshot profile contents)
    (shows_ : ShowsRecords snapshot records) :
    ∀ entry ∈ profile.dependencies, IsDeclared records entry := by
  obtain rfl := Except.ok.inj (shows_.contents.symm.trans profiled.contentsRead)
  obtain ⟨files, hint, rfl⟩ := profiled.isProfile
  intro entry member
  rcases List.mem_append.mp member with ofPackage | ofComposer
  · exact isDeclared_of_mem_dependencyEntries ofPackage
  · exact isDeclared_of_mem_dependencyEntries ofComposer

theorem Profiled.isPlain {profile : StackProfile} {contents : Contents}
    (profiled : Profiled snapshot profile contents) : profile.toValue.isPlain = true := by
  obtain ⟨files, hint, rfl⟩ := profiled.isProfile
  apply StackProfile.isPlain_toValue_ofProject
  exact ⟨fun _ here => isPlain_of_ofContents here, fun _ here => isPlain_of_ofContents here,
    fun _ here => isPlain_of_ofContents here⟩

theorem Settled.exists_dependencies (settled : Settled context invoked stages state)
    (builtin : ∀ stage ∈ stages, stage ∈ builtinStages) {records : List FileRecord}
    (catalogued : Catalogued context state records) :
    ∃ entries, Lists state "tech_stack" "dependencies" entries
      ∧ ∀ entry ∈ entries, IsDeclared records entry := by
  have isBuiltin : Stage.stackProfile ∈ builtinStages := by simp [builtinStages]
  have provides : "tech_stack" ∈ Stage.stackProfile.provides := by simp [Stage.stackProfile]
  rcases settled.provided_cases builtin isBuiltin with missing | ⟨snapshot, delta, took, returned, left⟩
  · exact ⟨[], .inl ⟨missing _ provides, rfl⟩, by simp⟩
  · obtain ⟨profile, _, profiled, rfl⟩ := StackProfile.exists_of_delta returned
    have shows_ := took.showsRecords catalogued (by simp [Stage.stackProfile])
      (by simp [Stage.stackProfile])
    have present := left _ provides
    rw [show List.lookup "tech_stack" [("tech_stack", profile.toValue)] = some _ from rfl,
      Option.map_some, Value.plainForm_of_isPlain profiled.isPlain] at present
    exact ⟨profile.dependencies, .inr ⟨_, present, rfl⟩, profiled.isDeclared shows_⟩

end

end Surveyor
