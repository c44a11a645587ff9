import Surveyor.Inspection.StackProfile
import Surveyor.Proofs.Json.Reads
import Surveyor.Proofs.Value.Fault
import Surveyor.Proofs.Value.Plain

/-! # The profile of a project is plain

The profile of the technology stack quotes manifests, whose keys may be anything: versions, scripts
and compiler settings are copied as they were read. The reader of manifests gives plain values
(`Json.Reads.plain`), so the profile is plain, but there may be something to hide in it.
-/

namespace Surveyor

/-! ## Manifests -/

namespace Json

theorem isPlain_of_scalarAt {t : Text} {i next : Nat} {v : Value}
    (read : scalarAt t i = .ok (v, next)) : v.isPlain = true := by
  unfold scalarAt at read
  repeat' split at read
  all_goals first | (cases read; rfl) | skip
  simp only [numberAt] at read
  repeat' split at read
  all_goals cases read
  all_goals rfl

/-- Plain, provided that the members found already are. -/
def Part.Plain : Part → Prop
  | .value v => v.isPlain = true
  | .items found v => (∀ item ∈ found, item.isPlain = true) → v.isPlain = true
  | .entries found v => (Value.map found).isPlain = true → v.isPlain = true

theorem Reads.plain {t : Text} {i j : Nat} {part : Part} (reads : Reads t part i j) :
    part.Plain := by
  induction reads with
  | string | emptyObject | emptyArray => rfl
  | scalar _ _ read => exact isPlain_of_scalarAt read
  | object _ _ inductionHypothesis => exact inductionHypothesis rfl
  | array _ _ inductionHypothesis =>
    exact inductionHypothesis fun _ impossible => absurd impossible List.not_mem_nil
  | lastItem _ _ inductionHypothesis =>
    intro each
    apply Value.isPlain_list.mpr
    intro other member
    rw [List.mem_reverse, List.mem_cons] at member
    cases member with
    | inl same => exact same ▸ inductionHypothesis
    | inr earlier => exact each other earlier
  | nextItem _ _ _ ofItem ofRest =>
    intro each
    exact ofRest (List.forall_mem_cons.mpr ⟨ofItem, each⟩)
  | lastEntry _ _ _ _ _ inductionHypothesis =>
    intro each
    exact Value.isPlain_insert _ inductionHypothesis each
  | nextEntry _ _ _ _ _ _ ofValue ofRest =>
    intro each
    exact ofRest (Value.isPlain_insert _ ofValue each)

theorem isPlain_of_readObject? {t : Text} {entries : Entries}
    (read : readObject? t = some entries) : (Value.map entries).isPlain = true := by
  obtain ⟨-, j, reads, -⟩ := readText_eq_ok_iff.mp (readObject?_eq_some_iff.mp read)
  exact reads.plain

end Json

section

variable {contents : Contents} {kind : ManifestKind}

/-- There is no manifest, or the one that is found is read; one that cannot be read has no entries. -/
theorem entries_ofContents (contents : Contents) (kind : ManifestKind) :
    (findManifest? contents kind.fileName = none
        ∧ (ManifestReading.ofContents contents kind).entries = none)
      ∨ ∃ path content, findManifest? contents kind.fileName = some (path, content)
        ∧ kind.read? content = (ManifestReading.ofContents contents kind).entries := by
  unfold ManifestReading.ofContents
  cases findManifest? contents kind.fileName with
  | none => exact .inl ⟨rfl, rfl⟩
  | some found =>
    obtain ⟨path, content⟩ := found
    refine .inr ⟨path, content, rfl, ?_⟩
    simp only
    cases kind.read? content with
    | none | some _ => rfl

theorem isPlain_of_ofContents {entries : Entries}
    (here : (ManifestReading.ofContents contents kind).entries = some entries) :
    (Value.map entries).isPlain = true := by
  cases entries_ofContents contents kind with
  | inl missing =>
    rw [missing.2] at here
    cases here
  | inr found =>
    obtain ⟨_, _, -, readObject⟩ := found
    rw [here] at readObject
    cases kind with
    | package | composer | tsconfig => exact Json.isPlain_of_readObject? readObject

end

/-! ## Profiles -/

theorem isPlain_entries {v : Value} (plain : v.isPlain = true) :
    (Value.map v.entries).isPlain = true := by
  cases v with
  | map entries => exact plain
  | view entries => cases plain
  | null | bool _ | int _ | float _ | str _ | list _ | tuple _ | set _ => rfl

theorem isPlain_update {first second : Entries} (plain : (Value.map first).isPlain = true)
    (plainSecond : (Value.map second).isPlain = true) :
    (Value.map (first.update second)).isPlain = true := by
  unfold Entries.update
  induction second generalizing first with
  | nil => exact plain
  | cons entry rest inductionHypothesis =>
    rw [Value.isPlain_map, List.forall_mem_cons] at plainSecond
    exact inductionHypothesis (Value.isPlain_insert entry.1 plainSecond.1 plain)
      (Value.isPlain_map.mpr plainSecond.2)

def Framework.HasPlainVersion (f : Framework) : Prop := ∀ v, f.version = some v → v.isPlain = true

namespace Framework

theorem isPlain_toValue {f : Framework} (version : f.HasPlainVersion) : f.toValue.isPlain = true := by
  unfold HasPlainVersion at version
  rw [toValue, Value.isPlain_map]
  cases hasVersion : f.version with
  | none => cases f.isPrimary <;> simp [Value.isPlain]
  | some v => cases f.isPrimary <;> simp [Value.isPlain, version v hasVersion]

theorem plainVersions_ofDependencies {dependencies : Entries}
    (plain : (Value.map dependencies).isPlain = true) (table : List (String × String))
    (source : String) : ∀ f ∈ ofDependencies table dependencies source, f.HasPlainVersion := by
  refine List.foldlRecOn (motive := fun found : List Framework => ∀ f ∈ found, f.HasPlainVersion)
    table _ (by simp) ?_
  rintro found all ⟨package, name⟩ -
  cases here : dependencies.lookup package with
  | none =>
    simp only [here]
    exact all
  | some version =>
    simp only [here]
    split
    · refine List.forall_mem_append.mpr ⟨all, List.forall_mem_singleton.mpr ?_⟩
      intro v isVersion
      cases isVersion
      exact Value.isPlain_of_lookup plain here
    · exact all

theorem plainVersions_addIndicated {known : List Framework}
    (all : ∀ f ∈ known, f.HasPlainVersion) (fileNames : List String) :
    ∀ f ∈ addIndicated fileNames known, f.HasPlainVersion := by
  refine List.foldlRecOn (motive := fun found : List Framework => ∀ f ∈ found, f.HasPlainVersion)
    configIndicators _ all ?_
  rintro found all ⟨fileName, name⟩ -
  simp only
  split
  · refine List.forall_mem_append.mpr ⟨all, List.forall_mem_singleton.mpr ?_⟩
    intro v isVersion
    cases isVersion
  · exact all

theorem plainVersions_markFirst {hint : String} {frameworks marked : List Framework}
    (all : ∀ f ∈ frameworks, f.HasPlainVersion) (marks : markFirst hint frameworks = some marked) :
    ∀ f ∈ marked, f.HasPlainVersion := by
  induction frameworks generalizing marked with
  | nil => cases marks
  | cons first rest inductionHypothesis =>
    rw [List.forall_mem_cons] at all
    unfold markFirst at marks
    split at marks
    · cases marks
      exact List.forall_mem_cons.mpr ⟨all.1, all.2⟩
    · obtain ⟨later, marksLater, rfl⟩ := Option.map_eq_some_iff.mp marks
      exact List.forall_mem_cons.mpr ⟨all.1, inductionHypothesis all.2 marksLater⟩

theorem plainVersions_applyHint {frameworks : List Framework}
    (all : ∀ f ∈ frameworks, f.HasPlainVersion) (hint : Option String) :
    ∀ f ∈ applyHint hint frameworks, f.HasPlainVersion := by
  unfold applyHint
  split
  · exact all
  · split
    · exact all
    · next hint _ =>
      cases marks : markFirst hint frameworks with
      | none =>
        apply List.forall_mem_cons.mpr ⟨?_, all⟩
        intro v isVersion
        cases isVersion
      | some marked => exact plainVersions_markFirst all marks

end Framework

structure Manifests.ArePlain (m : Manifests) : Prop where
  package : ∀ entries, m.package = some entries → (Value.map entries).isPlain = true
  composer : ∀ entries, m.composer = some entries → (Value.map entries).isPlain = true
  tsconfig : ∀ entries, m.tsconfig = some entries → (Value.map entries).isPlain = true

namespace StackProfile

theorem isPlain_sectionOf {manifest : Option Entries}
    (plain : ∀ entries, manifest = some entries → (Value.map entries).isPlain = true) (key : String) :
    (Value.map (sectionOf manifest key)).isPlain = true := by
  unfold sectionOf
  cases manifest with
  | none => rfl
  | some entries =>
    cases here : entries.lookup key with
    | none => simp [here, Value.isPlain_map]
    | some v =>
      have plainSection := isPlain_entries (Value.isPlain_of_lookup (plain entries rfl) here)
      simpa [here] using plainSection

theorem isPlain_of_given? {entries : Entries} (plain : (Value.map entries).isPlain = true)
    {key : String} {v : Value} (given : given? entries key = some v) : v.isPlain = true := by
  obtain ⟨here, -⟩ := Option.filter_eq_some_iff.mp given
  exact Value.isPlain_of_lookup plain here

theorem isPlain_runtimeOf {m : Manifests} (plain : m.ArePlain) :
    (Value.map (runtimeOf m)).isPlain = true := by
  have options : ∀ options, (m.tsconfig.getD []).lookup "compilerOptions" = some (.map options) →
      (compilerOptions options).isPlain = true := by
    intro options here
    have plainOptions : (Value.map options).isPlain = true := by
      cases read : m.tsconfig with
      | none =>
        rw [read] at here
        cases here
      | some entries =>
        rw [read] at here
        exact Value.isPlain_of_lookup (plain.tsconfig entries read) here
    have orUnknown : ∀ key, ((given? options key).getD (.str "unknown")).isPlain = true := by
      intro key
      cases given : given? options key with
      | none => rfl
      | some v => exact isPlain_of_given? plainOptions given
    simp only [compilerOptions, Value.isPlain_map, List.forall_mem_cons]
    exact ⟨orUnknown "target", orUnknown "module", rfl, by simp⟩
  have versions : ∀ (manifest : Option Entries),
      (∀ entries, manifest = some entries → (Value.map entries).isPlain = true) →
        ∀ part key name, ∀ entry ∈ ((given? (sectionOf manifest part) key).map fun v =>
          ((name : String), v)).toList, entry.2.isPlain = true := by
    intro manifest plainManifest part key name entry member
    obtain ⟨v, given, rfl⟩ := Option.map_eq_some_iff.mp (Option.mem_toList.mp member)
    exact isPlain_of_given? (isPlain_sectionOf plainManifest part) given
  rw [Value.isPlain_map, runtimeOf]
  refine List.forall_mem_append.mpr ⟨List.forall_mem_append.mpr
    ⟨versions _ plain.package _ _ _, versions _ plain.composer _ _ _⟩, ?_⟩
  intro entry member
  split at member
  · next found here =>
    obtain rfl := List.mem_singleton.mp member
    exact options _ here
  · cases member

theorem isPlain_dependenciesOf {m : Manifests} (plain : m.ArePlain)
    (packageKey composerKey type : String) (skipPlatform : Bool) :
    ∀ item ∈ dependenciesOf m packageKey composerKey type skipPlatform, item.isPlain = true := by
  have declared : ∀ (entries : Entries) (source : String) (skip : Bool),
      (Value.map entries).isPlain = true →
        ∀ item ∈ dependencyEntries (.map entries) (.str type) (.str source) skip,
          item.isPlain = true := by
    intro entries source skip plainEntries item member
    obtain ⟨⟨name, version⟩, kept, rfl⟩ := List.mem_map.mp member
    have plainVersion := Value.isPlain_map.mp plainEntries _ (List.mem_filter.mp kept).1
    simp only [Value.isPlain_map, List.forall_mem_cons]
    exact ⟨rfl, plainVersion, rfl, rfl, by simp⟩
  exact List.forall_mem_append.mpr
    ⟨declared _ _ _ (isPlain_sectionOf plain.package packageKey),
      declared _ _ _ (isPlain_sectionOf plain.composer composerKey)⟩

theorem plainVersions_frameworksOf {m : Manifests} (plain : m.ArePlain) (fileNames : List String)
    (hint : Option String) : ∀ f ∈ frameworksOf m fileNames hint, f.HasPlainVersion := by
  apply Framework.plainVersions_applyHint
  apply Framework.plainVersions_addIndicated
  exact List.forall_mem_append.mpr
    ⟨Framework.plainVersions_ofDependencies (isPlain_update (isPlain_sectionOf plain.package _)
        (isPlain_sectionOf plain.package _)) _ _,
      Framework.plainVersions_ofDependencies (isPlain_update (isPlain_sectionOf plain.composer _)
        (isPlain_sectionOf plain.composer _)) _ _⟩

theorem isPlain_toValue_ofProject (files : FileSummary) (contents : Contents) {m : Manifests}
    (plain : m.ArePlain) (hint : Option String) :
    (ofProject files contents m hint).toValue.isPlain = true := by
  have frameworks : (Value.list ((frameworksOf m files.names hint).map
      Framework.toValue)).isPlain = true := by
    rw [Value.isPlain_list]
    intro item member
    obtain ⟨f, inFrameworks, rfl⟩ := List.mem_map.mp member
    exact Framework.isPlain_toValue (plainVersions_frameworksOf plain files.names hint f inFrameworks)
  have languages : (Value.list (files.languages.map LanguageShare.toValue)).isPlain = true := by
    rw [Value.isPlain_list]
    intro item member
    obtain ⟨share, -, rfl⟩ := List.mem_map.mp member
    rfl
  rw [toValue, Value.isPlain_map]
  simp only [List.forall_mem_cons]
  exact ⟨languages, frameworks, isPlain_runtimeOf plain, (Value.leavesAsIs_ofOption _).plain,
    Value.isPlain_list.mpr (isPlain_dependenciesOf plain _ _ _ _),
    Value.isPlain_list.mpr (isPlain_dependenciesOf plain _ _ _ _),
    isPlain_sectionOf plain.package _, (Value.leavesAsIs_strings _).plain,
    (Value.leavesAsIs_strings _).plain, (Value.leavesAsIs_ofOption _).plain,
    (Value.leavesAsIs_ofOption _).plain, by simp⟩

end StackProfile

end Surveyor
