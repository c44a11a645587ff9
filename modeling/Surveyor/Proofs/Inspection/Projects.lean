import Surveyor.Proofs.Inspection.Shown
import Surveyor.Proofs.Quality.Reported

/-! # Projects made of sources

Where every catalogued file is a source that can be outlined, the search for unused code is shown the
project as it is (`Settled.exists_shows`): its texts, their outlines and its dependencies.
-/

namespace Surveyor

theorem obfuscated_frozen {files : Value} {records : List FileRecord}
    (members : files.members = .ok (records.map fun r => r.toValue.freeze)) :
    Snapshot.obfuscated files = .ok ((records.filter (·.isObfuscated)).map (·.path)) := by
  have each : ∀ r ∈ records, Snapshot.obfuscatedPath? r.toValue.freeze
      = .ok (if r.isObfuscated then some (.str r.path) else none) := by
    intro r _
    have obfuscated : r.toValue.freeze.field "obfuscated" = .ok (.bool r.isObfuscated) := rfl
    have path : r.toValue.freeze.entry "path" = .ok (.str r.path) := rfl
    simp only [Snapshot.obfuscatedPath?, obfuscated, path, bind, Except.bind, pure, Except.pure]
    cases r.isObfuscated with
    | true => rfl
    | false => rfl
  have all : (records.map fun r => r.toValue.freeze).mapM Snapshot.obfuscatedPath?
      = .ok (records.map fun r => if r.isObfuscated then some (.str r.path) else none) := by
    rw [List.mapM_map]
    exact mapM_eq_ok_map each
  simp only [Snapshot.obfuscated, members, bind, Except.bind, pure, Except.pure] at all ⊢
  rw [all]
  clear members each all
  induction records with
  | nil => rfl
  | cons r rest inductionHypothesis =>
    cases marked : r.isObfuscated with
    | true => simpa [marked, Value.str?] using inductionHypothesis
    | false => simpa [marked] using inductionHypothesis

theorem exists_ofEntry? {records : List FileRecord} {entry : Value} (declared : IsDeclared records entry) :
    ∃ d, Dependency.ofEntry? entry.freeze = .ok d := by
  obtain ⟨kind, record, name, -, named, -⟩ := declared
  cases entry with
  | map entries | view entries =>
    have here : (Value.freezeEntries entries).lookup "name" = some (.str name) := by
      rw [Value.lookup_freezeEntries, show entries.lookup "name" = some (.str name) from named]
      rfl
    simp only [Value.freeze, Dependency.ofEntry?, Value.field, Value.fieldOr, here, Option.getD_some,
      Value.textFor, bind, Except.bind, pure, Except.pure]
    split
    · exact ⟨_, rfl⟩
    · split
      · exact ⟨_, rfl⟩
      · exact ⟨_, rfl⟩
  | null | bool _ | int _ | float _ | str _ | list _ | tuple _ | set _ => cases named

theorem exists_unusedDependencies {records : List FileRecord} {entries : List Value}
    (declared : ∀ entry ∈ entries, IsDeclared records entry) (contents : Contents) :
    ∃ issues, unusedDependencies ((Value.list entries).freeze.orElse (.list [])) contents
      = .ok issues := by
  obtain ⟨read, readAll⟩ : ∃ read, (entries.map Value.freeze).mapM Dependency.ofEntry? = .ok read := by
    rw [List.mapM_map]
    exact exists_mapM_eq_ok fun entry member => exists_ofEntry? (declared entry member)
  rw [unusedDependencies, members_frozen]
  simp only [bind, Except.bind, pure, Except.pure] at readAll ⊢
  rw [readAll]
  exact ⟨_, rfl⟩

/-- A project whose records are all sources that are not obfuscated, with something to outline. -/
structure MadeOf (records : List FileRecord) (sources : List SourceFile) : Prop where
  areSources : records.filterMap (FileRecord.source? (contentsOf records)) = sources
  covers : contentsOf records = sources.map fun f => (f.path, f.content)
  clear : ∀ r ∈ records, r.isObfuscated = false
  outlined : (ProjectStructure.ofSources sources).outlines ≠ []

theorem MadeOf.clearSources {records : List FileRecord} {sources : List SourceFile}
    (made : MadeOf records sources) : ∀ f ∈ sources, f.isObfuscated = false := by
  intro f member
  rw [← made.areSources] at member
  obtain ⟨r, inRecords, isSource⟩ := List.mem_filterMap.mp member
  unfold FileRecord.source? at isSource
  split at isSource
  · cases isSource
  · obtain ⟨_, -, rfl⟩ := Option.map_eq_some_iff.mp isSource
    exact made.clear r inRecords

section

variable {context : StageContext} {invoked : List (String × Value)} {stages : List Stage}
  {state : Entries} {records : List FileRecord} {sources : List SourceFile}

theorem Settled.lists_sources (settled : Settled context invoked stages state)
    (catalogued : Catalogued context state records) (made : MadeOf records sources)
    (ran : .structureScan ∈ stages) (interval : ∃ every, context.settings.progressInterval = .ok every) :
    Lists state "code_structure" "files"
      ((ProjectStructure.ofSources sources).outlines.map Outline.toValue) := by
  obtain ⟨snapshot, took⟩ := settled.took _ ran
  have shows_ := took.showsRecords catalogued (by simp [Stage.structureScan])
    (by simp [Stage.structureScan])
  have sourcesSeen := shows_.sourcesOf_eq
  rw [made.areSources] at sourcesSeen
  obtain ⟨every, chosen⟩ := Settings.exists_intervalFor interval sources.length
  have returned : (Stage.structureScan.run context snapshot).result.delta?
      = some [("code_structure", (ProjectStructure.ofSources sources).toValue)] :=
    congrArg (fun run => run.result.delta?) (ProjectStructure.run_of_read sourcesSeen chosen)
  have left := took.left "code_structure" (by simp [Stage.structureScan])
  rw [returned] at left
  exact lists_outlines left

/-- What the search for unused code is handed shows the project. -/
theorem Settled.exists_shows (settled : Settled context invoked stages state)
    (builtin : ∀ stage ∈ stages, stage ∈ builtinStages) (ran : .structureScan ∈ stages)
    (checked : .qualityScan ∈ stages) (numbers : context.settings.NumbersGiven)
    (catalogued : Catalogued context state records) (made : MadeOf records sources) :
    ∃ snapshot, Took context invoked state .qualityScan snapshot ∧ Shows snapshot sources := by
  obtain ⟨snapshot, took⟩ := settled.took _ checked
  have shows_ := took.showsRecords catalogued (by simp [Stage.qualityScan]) (by simp [Stage.qualityScan])
  obtain ⟨dependencies, listed, declared⟩ := settled.exists_dependencies builtin catalogued
  obtain ⟨issues, found⟩ := exists_unusedDependencies declared
    (sources.map fun f => (f.path, f.content))
  have outlined := took.partField_eq
    (settled.lists_sources catalogued made ran numbers.interval) (by simp [Stage.qualityScan])
    (by decide)
  refine ⟨snapshot, took, made.clearSources, ?_, ?_, ?_, ?_⟩
  · rw [shows_.contents, made.covers]
  · obtain ⟨files, hasFiles, members⟩ := shows_.files
    refine ⟨files, hasFiles, ?_⟩
    rw [obfuscated_frozen members, List.filter_eq_nil_iff.mpr fun r inRecords => by
      simp [made.clear r inRecords]]
    rfl
  · -- A list with something in it counts as given.
    obtain ⟨first, rest, some_⟩ := List.exists_cons_of_ne_nil made.outlined
    rw [Snapshot.outlines, outlined, some_]
    rfl
  · exact ⟨_, issues, took.partField_eq listed (by simp [Stage.qualityScan]) (by decide), found⟩

end

end Surveyor
