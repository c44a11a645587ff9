import Mathlib.Data.List.Nodup
import Surveyor.Proofs.Inspection.ReportedSites

/-! # What a report holds of what its stages returned

A part of the report is what its stage returned, thawed and published: only entries with internal keys
are dropped, at any depth (`LeavesIn`). Four of the parts have none, so they leave as they are. The
profile of the technology stack and the findings quote manifests, whose keys may be anything; so a
script may be dropped there, but none whose name is not internal.
-/

namespace Surveyor

/-! ## Stages that return -/

/-- What a stage returned when the analysis invoked it. -/
def Analysis.returned? (a : Analysis) (context : StageContext) (stage : Stage) : Option Entries :=
  ((invocations a.run.journal).lookup stage.name).bind fun snapshot =>
    (stage.run context snapshot).result.delta?

/-- A value that a stage returned is what the report holds under a part, except for entries with
internal keys. -/
structure LeavesIn (report : Entries) (part : String) (v : Value) : Prop where
  leads : ∀ path : List Value.Turn, path.any Value.Turn.isInternal = false →
    (Value.map report).at? (.key part :: path) = (v.plainForm.at? path).map Value.publish
  entire : report.lookup part = some v.plainForm ↔ v.plainForm.isShown = true

theorem leavesIn_of_lookup {report : Entries} {part : String} {v : Value}
    (published : report.lookup part = some v.leaving) : LeavesIn report part v := by
  constructor
  · intro path shown
    have atPart : (Value.map report).turn? (.key part) = some v.leaving := published
    rw [Value.at?, atPart, Option.bind_some, Value.leaving, Value.at?_publish, shown]
    rfl
  · rw [published, Option.some.injEq]
    exact Value.publish_eq_self_iff (Value.isPlain_plainForm v)

theorem Analysis.Inspects.nodup_names {a : Analysis} {context : StageContext} {stages : List Stage}
    {report : Entries} (inspects : a.Inspects context stages report) :
    (stages.map (·.name)).Nodup := by
  obtain ⟨_, _, _, -, -, chosen, -⟩ := inspects.begins
  exact nodup_names_of_accepted (orderError?_of_chooseStages chosen)

/-- A stage is invoked once, on the snapshot of which the state tells what came of it. -/
theorem Settled.exists_took_of_returned? {a : Analysis} {context : StageContext} {stages : List Stage}
    {state delta : Entries} (settled : Settled context (invocations a.run.journal) stages state)
    (named : (stages.map (·.name)).Nodup) {stage : Stage} (ran : stage ∈ stages)
    (completed : a.returned? context stage = some delta) :
    ∃ snapshot, Took context (invocations a.run.journal) state stage snapshot
      ∧ (stage.run context snapshot).result.delta? = some delta := by
  obtain ⟨snapshot, took⟩ := settled.took stage ran
  obtain ⟨found, here, returned⟩ := Option.bind_eq_some_iff.mp completed
  obtain ⟨_, _, split, -⟩ := List.lookup_eq_some_iff.mp here
  -- Names are distinct, so both are the one snapshot under the name of the stage.
  have alsoHanded : (stage.name, found) ∈ invocations a.run.journal := by
    rw [split]
    simp
  rw [← settled.names] at named
  have same := List.inj_on_of_nodup_map named took.handed alsoHanded rfl
  obtain rfl := (Prod.mk.inj same).2
  exact ⟨snapshot, took, returned⟩

/-- What a report shows of a stage that completed is what the stage returned, thawed and published. -/
theorem Took.lookup_eq {context : StageContext} {invoked : List (String × Value)}
    {state delta report : Entries} {stage : Stage} {snapshot : Value}
    (took : Took context invoked state stage snapshot)
    (returned : (stage.run context snapshot).result.delta? = some delta) {part : String}
    (provided : part ∈ stage.provides)
    (published : report.lookup part = (state.lookup part).map Value.publish) :
    report.lookup part = (delta.lookup part).map Value.leaving := by
  rw [published, took.left part provided, returned, Option.bind_some, Option.map_map]
  rfl

theorem exists_value_of_builtin {context : StageContext} {stage : Stage}
    (builtin : stage ∈ builtinStages) {snapshot : Value} {delta : Entries}
    (returned : (stage.run context snapshot).result.delta? = some delta) {part : String}
    (provided : part ∈ stage.provides) : ∃ v, delta.lookup part = some v := by
  rw [← keys_of_builtin builtin returned] at provided
  obtain ⟨entry, member, rfl⟩ := List.mem_map.mp provided
  cases here : delta.lookup entry.1 with
  | some v => exact ⟨v, rfl⟩
  | none =>
    have different := List.lookup_eq_none_iff.mp here entry member
    simp at different

/-- What the stages return that quote no manifest leaves as it is. -/
theorem leavesAsIs_of_builtin {context : StageContext} {stage : Stage}
    (builtin : stage ∈ builtinStages) {snapshot : Value} {delta : Entries}
    (returned : (stage.run context snapshot).result.delta? = some delta) {part : String}
    (provided : part ∈ stage.provides) (shown : isInternalKey part = false)
    (noProfile : part ≠ "tech_stack") (noFindings : part ≠ "code_quality") {v : Value}
    (here : delta.lookup part = some v) : v.LeavesAsIs := by
  simp only [builtinStages, List.mem_cons, List.not_mem_nil, or_false] at builtin
  rcases builtin with rfl | rfl | rfl | rfl | rfl | rfl
  · obtain ⟨catalog, surveyed, rfl⟩ := Cataloguing.exists_of_delta returned
    simp only [Stage.cataloguing, List.mem_cons, List.not_mem_nil, or_false] at provided
    rcases provided with rfl | rfl
    · cases here
      exact Catalog.leavesAsIs_toValue surveyed.isOfFile
    · -- The contents of the files are under an internal key themselves.
      cases shown
  · exact absurd (List.mem_singleton.mp provided) noProfile
  · obtain ⟨sources, -, rfl⟩ := ProjectStructure.exists_of_delta returned
    obtain rfl := List.mem_singleton.mp provided
    cases here
    exact ProjectStructure.leavesAsIs_toValue _
  · exact absurd (List.mem_singleton.mp provided) noFindings
  · have result := StageRun.delta?_ofResult.mp returned
    simp only [bind_eq_ok, pure_eq_ok] at result
    obtain ⟨found, -, rfl⟩ := result
    obtain rfl := List.mem_singleton.mp provided
    cases here
    exact Locations.leavesAsIs_toValue _
  · have result := StageRun.delta?_ofResult.mp returned
    simp only [bind_eq_ok, pure_eq_ok] at result
    obtain ⟨assessment, assessed, rfl⟩ := result
    obtain rfl := List.mem_singleton.mp provided
    cases here
    exact Assessment.leavesAsIs_of_ofSnapshot assessed

/-! ## The manifest closest to the root -/

theorem isRootward_iff {a b : String} :
    isRootward a b = true ↔ Text.countChar '/' a < Text.countChar '/' b
      ∨ Text.countChar '/' a = Text.countChar '/' b ∧ a ≤ b := by
  simp [isRootward]

theorem isRootward_trans {a b c : String} (first : isRootward a b = true)
    (second : isRootward b c = true) : isRootward a c = true := by
  rw [isRootward_iff] at *
  rcases first with less | ⟨same, atMost⟩
  · omega
  · rcases second with less | ⟨sameToo, atMostToo⟩
    · omega
    · exact .inr ⟨same.trans sameToo, String.le_trans atMost atMostToo⟩

theorem isRootward_total (a b : String) : (isRootward a b || isRootward b a) = true := by
  rw [Bool.or_eq_true, isRootward_iff, isRootward_iff]
  rcases Nat.lt_trichotomy (Text.countChar '/' a) (Text.countChar '/' b) with less | same | more
  · exact .inl (.inl less)
  · rcases String.le_total a b with atMost | atLeast
    · exact .inl (.inr ⟨same, atMost⟩)
    · exact .inr (.inr ⟨same.symm, atLeast⟩)
  · exact .inr (.inl more)

theorem pairwise_mergeSort_rootward (contents : Contents) :
    (contents.mergeSort fun a b => isRootward a.1 b.1).Pairwise
      fun a b => isRootward a.1 b.1 = true := by
  apply List.pairwise_mergeSort
  · intro a b c first second
    exact isRootward_trans first second
  · intro a b
    exact isRootward_total a.1 b.1

/-- What comes first in order lies at least as close to the root as everything else. -/
theorem isRootward_of_head? {candidates : Contents} {path content : String}
    (found : (candidates.mergeSort fun a b => isRootward a.1 b.1).head? = some (path, content))
    {file : String × String} (member : file ∈ candidates) : isRootward path file.1 = true := by
  have sorted := pairwise_mergeSort_rootward candidates
  obtain ⟨rest, split⟩ := List.head?_eq_some_iff.mp found
  rw [← List.mem_mergeSort, split] at member
  rw [split] at sorted
  rcases List.mem_cons.mp member with rfl | later
  · have itself := isRootward_total path path
    rwa [Bool.or_self] at itself
  · exact (List.pairwise_cons.mp sorted).1 file later

theorem isRootward_of_findManifest? {contents : Contents} {fileName path content : String}
    (found : findManifest? contents fileName = some (path, content)) {other text : String}
    (member : (other, text) ∈ contents) (named : Text.baseName other = fileName) :
    isRootward path other = true := by
  rw [findManifest?] at found
  have closest := isRootward_of_head? found (List.mem_filter.mpr ⟨member, beq_iff_eq.mpr named⟩)
  exact closest

theorem baseName_ne_of_findManifest? {contents : Contents} {fileName : String}
    (notFound : findManifest? contents fileName = none) {path content : String}
    (member : (path, content) ∈ contents) : Text.baseName path ≠ fileName := by
  rw [findManifest?, List.head?_eq_none_iff] at notFound
  have noCandidate := notFound ▸ List.mergeSort_perm _ _
  have different := List.filter_eq_nil_iff.mp noCandidate.nil_eq.symm (path, content) member
  simpa using different

/-- The record of a file that was read, and no other of its name that was read lies closer to the
root. -/
structure FileRecord.LiesClosest (records : List FileRecord) (fileName : String) (record : FileRecord) :
    Prop where
  listed : record ∈ records
  named : Text.baseName record.path = fileName
  closest : ∀ other ∈ records, other.content.isSome = true → Text.baseName other.path = fileName →
    isRootward record.path other.path = true

theorem mem_contentsOf {records : List FileRecord} {record : FileRecord} (listed : record ∈ records)
    {content : String} (read : record.content = some content) :
    (record.path, content) ∈ contentsOf records :=
  List.mem_filterMap.mpr ⟨record, listed, by rw [read]; rfl⟩

/-- The scripts of the package manifest closest to the root; there are none if no such file was read,
or if it cannot be read as an object that lists them. -/
inductive ScriptsOf (records : List FileRecord) : Entries → Prop
  | missing
      (noManifest : ∀ record ∈ records, record.content.isSome = true →
        Text.baseName record.path ≠ "package.json") :
      ScriptsOf records []
  | listed {record : FileRecord} {content : String}
      (closest : record.LiesClosest records "package.json") (hasContent : record.content = some content) :
      ScriptsOf records (StackProfile.sectionOf (ManifestKind.package.read? content) "scripts")

theorem scriptsOf_ofContents (records : List FileRecord) : ScriptsOf records
    (StackProfile.sectionOf (Manifests.ofContents (contentsOf records)).package "scripts") := by
  cases entries_ofContents (contentsOf records) .package with
  | inl missing =>
    obtain ⟨notFound, noEntries⟩ := missing
    rw [Manifests.ofContents, noEntries]
    refine .missing ?_
    intro record listed hasContent named
    obtain ⟨content, read⟩ := Option.isSome_iff_exists.mp hasContent
    exact baseName_ne_of_findManifest? notFound (mem_contentsOf listed read) named
  | inr found =>
    obtain ⟨path, content, found, readManifest⟩ := found
    obtain ⟨inContents, named⟩ := mem_of_findManifest? found
    obtain ⟨record, listed, rfl, hasContent⟩ := exists_record_of_mem_contentsOf inContents
    have closest : record.LiesClosest records "package.json" := by
      refine ⟨listed, named, ?_⟩
      intro other inRecords otherRead otherNamed
      obtain ⟨_, otherContent⟩ := Option.isSome_iff_exists.mp otherRead
      exact isRootward_of_findManifest? found (mem_contentsOf inRecords otherContent) otherNamed
    -- A manifest that cannot be read lists nothing, like one that lists no scripts.
    rw [Manifests.ofContents, ← readManifest]
    exact .listed closest hasContent

/-- The profile lists the scripts of the package manifest closest to the root. -/
theorem Profiled.scriptsOf {snapshot : Value} {records : List FileRecord} {profile : StackProfile}
    {contents : Contents} (profiled : Profiled snapshot profile contents)
    (shows_ : ShowsRecords snapshot records) : ScriptsOf records profile.scripts := by
  obtain rfl := Except.ok.inj (shows_.contents.symm.trans profiled.contentsRead)
  obtain ⟨files, hint, rfl⟩ := profiled.isProfile
  exact scriptsOf_ofContents records

/-! ## Reports -/

/-- What the report tells of the scripts that a stage returned. -/
theorem LeavesIn.script_eq {report : Entries} {profile : StackProfile} {name : String}
    (leaves : LeavesIn report "tech_stack" profile.toValue) (plain : profile.toValue.isPlain = true) :
    (Value.map report).at? [.key "tech_stack", .key "scripts", .key name]
      = if isInternalKey name then none else (profile.scripts.lookup name).map Value.publish := by
  have scripts := leaves.leads [.key "scripts"] (by decide)
  rw [Value.plainForm_of_isPlain plain] at scripts
  have step : (Value.map report).at? [.key "tech_stack", .key "scripts", .key name]
      = ((Value.map report).at? [.key "tech_stack", .key "scripts"]).bind (Value.at? · [.key name]) :=
    Value.at?_append _ [.key "tech_stack", .key "scripts"] [.key name]
  have listed : profile.toValue.at? [.key "scripts"] = some (.map profile.scripts) := rfl
  rw [step, scripts, listed, Option.map_some, Option.bind_some, Value.at?_publish]
  cases hidden : isInternalKey name with
  | true => simp [Value.Turn.isInternal, hidden]
  | false =>
    have found : (Value.map profile.scripts).at? [.key name] = profile.scripts.lookup name := by
      simp [Value.at?, Value.turn?, Value.get?]
    simp [Value.Turn.isInternal, hidden, found]

namespace Analysis

/-- The report holds what the stages returned, less the entries with internal keys. Only in what
quotes manifests can there be any, so the other parts are held as they were returned; and the scripts
of the manifest closest to the root are held, except those with an internal name. -/
theorem report_holds_returned {a : Analysis} {context : StageContext} {stages : List Stage}
    {report : Entries} (inspects : a.Inspects context stages report) {stage : Stage}
    (ran : stage ∈ stages) {delta : Entries} (completed : a.returned? context stage = some delta)
    {part : String} (provided : part ∈ stage.provides) (shown : isInternalKey part = false) :
    ∃ v, delta.lookup part = some v ∧ LeavesIn report part v
      ∧ (part ≠ "tech_stack" → part ≠ "code_quality" → report.lookup part = some v)
      ∧ (part = "tech_stack" → v.plainForm = v
        ∧ ∃ records scripts, Records context report records ∧ ScriptsOf records scripts
          ∧ v.get? "scripts" = some (.map scripts)
          ∧ ∀ name, (Value.map report).at? [.key "tech_stack", .key "scripts", .key name]
            = if isInternalKey name then none else (scripts.lookup name).map Value.publish) := by
  obtain ⟨state, settled, published⟩ := inspects.exists_settled
  obtain ⟨snapshot, took, returned⟩ :=
    settled.exists_took_of_returned? inspects.nodup_names ran completed
  have builtin := inspects.builtin stage ran
  have tidy : stage.Tidy context := tidy_of_builtin builtin
  have notRecord : part ≠ recordKey := by
    rintro rfl
    exact tidy.noRecord provided
  have left := took.lookup_eq returned provided (published part shown notRecord)
  obtain ⟨v, here⟩ := exists_value_of_builtin builtin returned provided
  rw [here, Option.map_some] at left
  have leaves := leavesIn_of_lookup left
  refine ⟨v, here, leaves, ?_, ?_⟩
  · intro noProfile noFindings
    have asIs := leavesAsIs_of_builtin builtin returned provided shown noProfile noFindings here
    rw [left, Value.leaving, asIs.publish_plainForm]
  · -- The profile is plain, so thawing keeps it, and its scripts are those of the manifest.
    rintro rfl
    obtain rfl : stage = .stackProfile :=
      eq_of_provides builtin (by simp [builtinStages]) provided (by simp [Stage.stackProfile])
    obtain ⟨profile, _, profiled, rfl⟩ := StackProfile.exists_of_delta returned
    cases here
    obtain ⟨records, catalogued⟩ := settled.exists_catalogued inspects.builtin
    have shows_ := took.showsRecords catalogued (by simp [Stage.stackProfile])
      (by simp [Stage.stackProfile])
    refine ⟨Value.plainForm_of_isPlain profiled.isPlain, records, profile.scripts,
      catalogued.records (published "file_system" (by decide) (by decide)),
      profiled.scriptsOf shows_, rfl, ?_⟩
    intro name
    exact leaves.script_eq profiled.isPlain

/-- A directory whose manifest lists two scripts, one under an internal name. -/
def scriptDirectory : List (String × FileNode) :=
  [("package.json", .file (String.toUTF8
    "\x7b\"scripts\":\x7b\"build\":\"tsc\",\"_prepare\":\"tsc\"\x7d\x7d") 0)]

/-- All stages complete, and what one of them returns lists both scripts. -/
theorem scriptDirectory_completes :
    ∃ report delta v,
      (ofDirectory builtinStages scriptDirectory).Inspects (directoryContext scriptDirectory)
        builtinStages report
      ∧ (∀ stage ∈ builtinStages, ((ofDirectory builtinStages scriptDirectory).returned?
        (directoryContext scriptDirectory) stage).isSome = true)
      ∧ (ofDirectory builtinStages scriptDirectory).returned? (directoryContext scriptDirectory)
        .stackProfile = some delta
      ∧ delta.lookup "tech_stack" = some v
      ∧ v.at? [.key "scripts", .key "build"] = some (.str "tsc")
      ∧ v.at? [.key "scripts", .key "_prepare"] = some (.str "tsc") := by
  obtain ⟨present, complete, found⟩ :
      ((ofDirectory builtinStages scriptDirectory).shown []).isSome = true
      ∧ (builtinStages.all fun stage => ((ofDirectory builtinStages scriptDirectory).returned?
        (directoryContext scriptDirectory) stage).isSome) = true
      ∧ (((ofDirectory builtinStages scriptDirectory).returned? (directoryContext scriptDirectory)
        .stackProfile).bind (·.lookup "tech_stack")).bind (fun v => (v.get? "scripts").map
          fun scripts => (scripts.hasText "build" "tsc", scripts.hasText "_prepare" "tsc"))
        = some (true, true) := by decide +kernel
  obtain ⟨report, returned⟩ := exists_report_of_shown present
  obtain ⟨v, inDelta, found⟩ := Option.bind_eq_some_iff.mp found
  obtain ⟨delta, completed, here⟩ := Option.bind_eq_some_iff.mp inDelta
  obtain ⟨scripts, listed, both⟩ := Option.map_eq_some_iff.mp found
  obtain ⟨build, prepare⟩ := Prod.mk.inj both
  refine ⟨report, delta, v,
    ofDirectory_inspects (by decide +kernel) (fun _ member => member) returned,
    List.all_eq_true.mp complete, completed, here, ?_, ?_⟩
  · simp [Value.at?, Value.turn?, listed, get?_of_hasText build]
  · simp [Value.at?, Value.turn?, listed, get?_of_hasText prepare]

/-- The report holds the script that is not internal. -/
theorem scriptDirectory_held :
    ∃ report delta v,
      (ofDirectory builtinStages scriptDirectory).Inspects (directoryContext scriptDirectory)
        builtinStages report
      ∧ (ofDirectory builtinStages scriptDirectory).returned? (directoryContext scriptDirectory)
        .stackProfile = some delta
      ∧ delta.lookup "tech_stack" = some v
      ∧ (∃ records scripts, Records (directoryContext scriptDirectory) report records
        ∧ ScriptsOf records scripts ∧ scripts.lookup "build" = some (.str "tsc"))
      ∧ (Value.map report).at? [.key "tech_stack", .key "scripts", .key "build"]
        = some (.str "tsc") := by
  obtain ⟨report, delta, v, inspects, -, returned, here, build, -⟩ := scriptDirectory_completes
  have provided : "tech_stack" ∈ Stage.stackProfile.provides := by simp [Stage.stackProfile]
  obtain ⟨_, isValue, -, -, profiled⟩ :=
    report_holds_returned inspects (by simp [builtinStages]) returned provided (by decide)
  cases here.symm.trans isValue
  obtain ⟨-, records, scripts, recorded, ofManifest, listed, held⟩ := profiled rfl
  have hasBuild : scripts.lookup "build" = some (.str "tsc") := by
    rw [Value.at?, show v.turn? (.key "scripts") = _ from listed] at build
    simpa [Value.at?, Value.turn?, Value.get?] using build
  refine ⟨report, delta, v, inspects, returned, here,
    ⟨records, scripts, recorded, ofManifest, hasBuild⟩, ?_⟩
  rw [held "build", hasBuild]
  rfl

/-- All stages complete, and the report does not hold the script with the internal name, which one of
them returned. -/
theorem underscoredScript_lost :
    ∃ report delta v,
      (ofDirectory builtinStages scriptDirectory).Inspects (directoryContext scriptDirectory)
        builtinStages report
      ∧ (∀ stage ∈ builtinStages, ((ofDirectory builtinStages scriptDirectory).returned?
        (directoryContext scriptDirectory) stage).isSome = true)
      ∧ (ofDirectory builtinStages scriptDirectory).returned? (directoryContext scriptDirectory)
        .stackProfile = some delta
      ∧ delta.lookup "tech_stack" = some v
      ∧ v.at? [.key "scripts", .key "_prepare"] = some (.str "tsc")
      ∧ (Value.map report).at? [.key "tech_stack", .key "scripts", .key "_prepare"] = none
      ∧ report.lookup "tech_stack" ≠ some v := by
  obtain ⟨report, delta, v, inspects, complete, returned, here, -, prepare⟩ :=
    scriptDirectory_completes
  have lost : (Value.map report).at? [.key "tech_stack", .key "scripts", .key "_prepare"] = none := by
    obtain ⟨_, _, _, state, -, -, published⟩ := exists_state_of_ok inspects.returned
    rw [published]
    exact Value.at?_publish (.map state) _
  refine ⟨report, delta, v, inspects, complete, returned, here, prepare, lost, ?_⟩
  intro same
  simp only [Value.at?, Value.turn?, Value.get?, same, Option.bind_some] at lost prepare
  rw [prepare] at lost
  cases lost

end Analysis

end Surveyor
