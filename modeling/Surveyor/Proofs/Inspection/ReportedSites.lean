import Mathlib.Data.List.TakeWhile
import Surveyor.Proofs.Inspection.Mergeable

/-! # Where the findings of a report lie

The findings that a report lists are those of the stage, thawed and published. Their files, lines and
names are texts and numbers, which this does not change; so what is known of the findings is known of
the report.
-/

namespace Surveyor

/-! ## Published fields -/

theorem lookup_plainEntries (entries : Entries) (key : String) :
    (Value.plainEntries entries).lookup key = (entries.lookup key).map Value.plainForm := by
  induction entries with
  | nil => rfl
  | cons entry rest inductionHypothesis =>
    obtain ⟨name, value⟩ := entry
    rw [Value.plainEntries, List.lookup_cons, List.lookup_cons]
    cases key == name with
    | true => rfl
    | false => exact inductionHypothesis

/-- The form in which a value that a stage returned leaves an analysis. -/
def Value.leaving (v : Value) : Value := v.plainForm.publish

theorem get?_leaving (v : Value) {key : String} (shown : isInternalKey key = false) :
    v.leaving.get? key = (v.get? key).map Value.leaving := by
  cases v with
  | map entries | view entries =>
    show (Value.publishEntries (Value.plainEntries entries)).lookup key = _
    rw [lookup_publishEntries_of_shown shown, lookup_plainEntries, Option.map_map]
    rfl
  | null | bool _ | int _ | float _ | str _ | list _ | tuple _ | set _ => rfl

theorem leaving_list (items : List Value) :
    (Value.list items).leaving = .list (items.map Value.leaving) := by
  rw [Value.leaving, Value.plainForm, Value.publish, Value.plainItems_eq_map, Value.publishItems_eq_map,
    List.map_map]
  rfl

theorem lookup_foldl_insertNew (fields details : Entries) (key : String) :
    (details.foldl (fun entries (detail : String × Value) =>
        Entries.insertNew detail.1 detail.2 entries) fields).lookup key
      = (fields.lookup key).or (details.lookup key) := by
  induction details generalizing fields with
  | nil => simp
  | cons detail rest inductionHypothesis =>
    obtain ⟨name, value⟩ := detail
    rw [List.foldl_cons, inductionHypothesis, List.lookup_cons]
    unfold Entries.insertNew
    by_cases present : (fields.lookup name).isSome = true
    · rw [if_pos present]
      by_cases same : key = name
      · -- The detail is hidden by a field of the same name.
        subst same
        obtain ⟨found, here⟩ := Option.isSome_iff_exists.mp present
        simp [here]
      · rw [beq_false_of_ne same]
    · rw [if_neg present, List.lookup_append, Option.or_assoc]
      by_cases same : key = name
      · subst same
        simp
      · rw [Entries.lookup_cons_of_ne same, beq_false_of_ne same]
        rfl

namespace Issue

/-- What stands under a key of a finding is a field, or else a detail. -/
theorem get?_toValue_eq (issue : Issue) (key : String) :
    issue.toValue.get? key
      = (List.lookup key [("name", issue.name), ("kind", .str issue.kind),
          ("severity", .str issue.severity), ("file", issue.file), ("line", issue.line),
          ("tag", .str issue.tag), ("description", .str issue.description)]).or
        (issue.extra.lookup key) :=
  lookup_foldl_insertNew _ _ key

variable (issue : Issue)

theorem get?_file_leaving : issue.toValue.leaving.get? "file" = some issue.file.leaving := by
  rw [get?_leaving _ (by decide), get?_toValue_eq]
  rfl

theorem get?_line_leaving : issue.toValue.leaving.get? "line" = some issue.line.leaving := by
  rw [get?_leaving _ (by decide), get?_toValue_eq]
  rfl

theorem get?_name_leaving : issue.toValue.leaving.get? "name" = some issue.name.leaving := by
  rw [get?_leaving _ (by decide), get?_toValue_eq]
  rfl

theorem get?_end_leaving :
    issue.toValue.leaving.get? "end_line" = (issue.extra.lookup "end_line").map Value.leaving := by
  rw [get?_leaving _ (by decide), get?_toValue_eq]
  rfl

theorem hasText_kind_leaving (kind : String) :
    issue.toValue.leaving.hasText "kind" kind = (issue.kind == kind) := by
  rw [Value.hasText, get?_leaving _ (by decide), get?_toValue_eq]
  rfl

end Issue

theorem QualityFindings.get?_issues_leaving (findings : QualityFindings) :
    findings.toValue.leaving.get? "issues"
      = some (.list (findings.issues.map fun issue => issue.toValue.leaving)) := by
  have listed : findings.toValue.get? "issues" = some (.list (findings.issues.map Issue.toValue)) := rfl
  rw [get?_leaving _ (by decide), listed, Option.map_some, leaving_list, List.map_map]
  rfl

/-! ## Reports -/

theorem Lists.at?_eq {report : Entries} {part key : String} {items : List Value}
    (lists : Lists report part key items) (present : (report.lookup part).isSome = true) :
    (Value.map report).at? [.key part, .key key] = some (.list items) := by
  rcases lists with ⟨missing, -⟩ | ⟨entries, here, inEntries⟩
  · rw [missing] at present
    cases present
  · simp only [Value.at?, Value.turn?, Value.get?, here, inEntries, Option.bind_some]

theorem Lists.eq_of_at? {report : Entries} {part key : String} {items : List Value} {v : Value}
    (lists : Lists report part key items)
    (reached : (Value.map report).at? [.key part, .key key] = some v) : v = .list items := by
  cases here : report.lookup part with
  | none =>
    simp only [Value.at?, Value.turn?, Value.get?, here, Option.bind_none] at reached
    cases reached
  | some found =>
    rw [lists.at?_eq (by simp [here])] at reached
    exact (Option.some.inj reached).symm

theorem Lists.unique {report : Entries} {part key : String} {items items' : List Value}
    (lists : Lists report part key items) (lists' : Lists report part key items') : items = items' := by
  rcases lists with ⟨missing, rfl⟩ | ⟨entries, here, inEntries⟩
  · rcases lists' with ⟨-, rfl⟩ | ⟨entries, here, -⟩
    · rfl
    · cases missing.symm.trans here
  · rcases lists' with ⟨missing, -⟩ | ⟨entries', here', inEntries'⟩
    · cases missing.symm.trans here
    · cases here.symm.trans here'
      cases inEntries.symm.trans inEntries'
      rfl

/-- The records of a report: those of the survey, or none without one. -/
inductive Records (context : StageContext) (report : Entries) : List FileRecord → Prop
  | missing (noFiles : report.lookup "file_system" = none) : Records context report []
  | surveyed {catalog : Catalog} (surveyed : Surveyed context catalog)
      (files : report.lookup "file_system" = some catalog.toValue) :
      Records context report catalog.files

theorem Records.lists {context : StageContext} {report : Entries} {records : List FileRecord}
    (recorded : Records context report records) :
    Lists report "file_system" "files" (records.map FileRecord.toValue) := by
  cases recorded with
  | missing noFiles => exact .inl ⟨noFiles, rfl⟩
  | surveyed _ files => exact .inr ⟨_, files, rfl⟩

theorem Catalogued.records {context : StageContext} {state report : Entries}
    {records : List FileRecord} (catalogued : Catalogued context state records)
    (published : report.lookup "file_system" = (state.lookup "file_system").map Value.publish) :
    Records context report records := by
  cases catalogued with
  | missing noFiles _ =>
    rw [noFiles] at published
    exact .missing published
  | surveyed surveyed files _ =>
    have leaves := Catalog.leavesAsIs_toValue surveyed.isOfFile
    rw [files, Option.map_some, Value.publish_of_isShown leaves.plain leaves.shown] at published
    exact .surveyed surveyed published

/-- The findings that a report lists are about its records. -/
theorem Analysis.Inspects.exists_issues {a : Analysis} {context : StageContext} {stages : List Stage}
    {report : Entries} (inspects : a.Inspects context stages report) :
    ∃ (records : List FileRecord) (issues : List Issue), Records context report records
      ∧ Lists report "code_quality" "issues" (issues.map fun issue => issue.toValue.leaving)
      ∧ ∀ issue ∈ issues, issue.LiesIn records ∨ issue.IsOfManifest records := by
  obtain ⟨state, settled, published⟩ := inspects.exists_settled
  obtain ⟨records, catalogued⟩ := settled.exists_catalogued inspects.builtin
  obtain ⟨outlines, outlined, areOf⟩ := settled.exists_outlines inspects.builtin catalogued
  obtain ⟨dependencies, listed, declared⟩ := settled.exists_dependencies inspects.builtin catalogued
  have recorded := catalogued.records (published "file_system" (by decide) (by decide))
  have shownQuality := published "code_quality" (by decide) (by decide)
  have isBuiltin : Stage.qualityScan ∈ builtinStages := by simp [builtinStages]
  have provides : "code_quality" ∈ Stage.qualityScan.provides := by simp [Stage.qualityScan]
  rcases settled.provided_cases inspects.builtin isBuiltin with
    missing | ⟨snapshot, delta, took, returned, left⟩
  · rw [missing _ provides] at shownQuality
    exact ⟨records, [], recorded, .inl ⟨shownQuality, rfl⟩, by simp⟩
  · obtain ⟨i, references, findings, read, found, rfl⟩ := QualityFindings.exists_of_delta returned
    have sees := took.sees catalogued outlined listed read
    rw [left _ provides] at shownQuality
    -- The findings are a mapping, and stay one when it leaves.
    exact ⟨records, findings.issues, recorded, .inr ⟨_, shownQuality, findings.get?_issues_leaving⟩,
      QualityFindings.liesIn_or_isOfManifest sees areOf declared found⟩

/-- Only findings about dependencies have no line. -/
theorem Analysis.Inspects.line_ne_null {a : Analysis} {context : StageContext} {stages : List Stage}
    {report : Entries} (inspects : a.Inspects context stages report) {issues : List Value}
    (listed : Lists report "code_quality" "issues" issues) {issue : Value} (member : issue ∈ issues)
    (notDependency : issue.hasText "kind" "unused_dependency" = false) :
    issue.get? "line" ≠ some .null := by
  obtain ⟨records, found, -, listedToo, sited⟩ := inspects.exists_issues
  rw [listed.unique listedToo] at member
  obtain ⟨issue, inIssues, rfl⟩ := List.mem_map.mp member
  rcases sited issue inIssues with ⟨record, -, content, line, lies⟩ | ofManifest
  · rw [Issue.get?_line_leaving, lies.hasLine]
    exact fun same => nomatch same
  · rw [Issue.hasText_kind_leaving, ofManifest.kind] at notDependency
    cases notDependency

theorem get?_of_hasText {v : Value} {key text : String} (has : v.hasText key text = true) :
    v.get? key = some (.str text) := by
  obtain ⟨found, here, isText⟩ := Option.bind_eq_some_iff.mp (eq_of_beq has)
  cases found with
  | str s =>
    cases isText
    exact here
  | null | bool _ | int _ | float _ | list _ | tuple _ | set _ | map _ | view _ => cases isText

/-- A published finding that reports an unused name does so when it leaves. -/
theorem hasText_of_reportsUnused {v : Value} {n : String} (reports : v.reportsUnused n = true) :
    (v.leaving.hasText "kind" "unused_function" = true
        ∨ v.leaving.hasText "kind" "unused_method" = true)
      ∧ v.leaving.get? "name" = some (.str n) := by
  have kept : ∀ key text, v.hasText key text = true → isInternalKey key = false →
      v.leaving.get? key = some (.str text) := by
    intro key text has shown
    rw [get?_leaving _ shown, get?_of_hasText has]
    rfl
  cases v with
  | map fields =>
    simp only [Value.reportsUnused, Bool.and_eq_true, Option.any_eq_true, Bool.or_eq_true] at reports
    obtain ⟨⟨kind, hasKind, isKind⟩, hasName⟩ := reports
    have named := kept "name" n hasName (by decide)
    refine ⟨?_, named⟩
    have leavesKind := kept "kind" kind (beq_iff_eq.mpr hasKind) (by decide)
    rcases isKind with isFunction | isMethod
    · rw [eq_of_beq isFunction] at leavesKind
      exact .inl (by rw [Value.hasText, leavesKind]; rfl)
    · rw [eq_of_beq isMethod] at leavesKind
      exact .inr (by rw [Value.hasText, leavesKind]; rfl)
  | null | bool _ | int _ | float _ | str _ | list _ | tuple _ | set _ | view _ => cases reports

/-- A report lists the functions and methods of a project that nothing refers to. -/
theorem Analysis.Inspects.exists_unused {a : Analysis} {context : StageContext} {stages : List Stage}
    {report : Entries} (inspects : a.Inspects context stages report) (ran : .structureScan ∈ stages)
    (checked : .qualityScan ∈ stages) (numbers : context.settings.NumbersGiven)
    {sources : List SourceFile} {n : String}
    (made : ∀ records, Records context report records → MadeOf records sources)
    (dead : ∀ cut, context.settings.scanCharLimit = .ok cut → isDead (References.ofFiles
      (Contents.filled (sources.map fun f => (f.path, f.content)) []) cut) n = true)
    (declared : n ∈ declaredNames sources) :
    ∃ issues, Lists report "code_quality" "issues" issues
      ∧ ∃ issue ∈ issues, (issue.hasText "kind" "unused_function" = true
          ∨ issue.hasText "kind" "unused_method" = true)
        ∧ issue.get? "name" = some (.str n) := by
  obtain ⟨state, settled, published⟩ := inspects.exists_settled
  obtain ⟨records, catalogued⟩ := settled.exists_catalogued inspects.builtin
  have recorded := catalogued.records (published "file_system" (by decide) (by decide))
  obtain ⟨snapshot, took, shows_⟩ := settled.exists_shows inspects.builtin ran checked numbers
    catalogued (made records recorded)
  obtain ⟨cut, limited, reports⟩ := QualityFindings.run_reports shows_ numbers
  obtain ⟨fields, issues, result, listed, counted⟩ := reports n
  rw [if_pos (dead cut limited)] at counted
  have shownQuality := published "code_quality" (by decide) (by decide)
  rw [took.left "code_quality" (by simp [Stage.qualityScan]),
    show (Stage.qualityScan.run context snapshot).result = _ from result] at shownQuality
  have issuesLeaving : (Value.map fields).leaving.get? "issues"
      = some (.list (issues.map Value.leaving)) := by
    rw [get?_leaving _ (by decide), show (Value.map fields).get? "issues" = _ from listed,
      Option.map_some, leaving_list]
  -- As many findings name it as there are declarations of it, and there is one.
  obtain ⟨issue, member, reported⟩ : ∃ issue ∈ issues, issue.reportsUnused n = true := by
    apply List.countP_pos_iff.mp
    rw [counted]
    exact List.count_pos_iff.mpr declared
  exact ⟨_, .inr ⟨_, shownQuality, issuesLeaving⟩, issue.leaving, List.mem_map_of_mem member,
    hasText_of_reportsUnused reported⟩

/-! ## Lines -/

/-- A finding of a report on a line of a record, where its name stands if it is that of an unused
function or method. -/
structure OnRecord (issue : Value) (record : FileRecord) (content : String) (line : Nat) : Prop where
  file : issue.get? "file" = some (.str record.path)
  read : record.content = some content
  hasLine : issue.get? "line" = some (.ofNat line)
  first : 1 ≤ line
  upTo : line ≤ record.lines
  ends : ∀ last, issue.get? "end_line" = some last → ∃ n : Nat, last = .ofNat n ∧ n ≤ record.lines
  named : issue.hasText "kind" "unused_function" = true ∨ issue.hasText "kind" "unused_method" = true →
    ∃ name chars, issue.get? "name" = some (.str name)
      ∧ (textLines (Text.ofString content))[line - 1]? = some chars ∧ name.toList <:+: chars

theorem Issue.LiesOn.onRecord {issue : Issue} {record : FileRecord} {content : String} {line : Int}
    (lies : issue.LiesOn record content line) (ofFile : record.IsOfFile) :
    OnRecord issue.toValue.leaving record content line.toNat := by
  have lines : (textLines (Text.ofString content)).length = record.lines := by
    rw [length_textLines, ofFile.lines lies.read]
  obtain ⟨first, upTo⟩ := lies.isLine
  rw [lines] at upTo
  constructor
  · rw [get?_file_leaving, lies.file]
    rfl
  · exact lies.read
  · have same : (line.toNat : Int) = line := Int.toNat_of_nonneg (by omega)
    rw [get?_line_leaving, lies.hasLine, Value.ofNat, same]
    rfl
  · omega
  · omega
  · intro last here
    rw [get?_end_leaving] at here
    obtain ⟨_, inExtra, rfl⟩ := Option.map_eq_some_iff.mp here
    obtain ⟨n, rfl, upTo⟩ := lies.ends _ inExtra
    exact ⟨n, rfl, lines ▸ upTo⟩
  · intro isNamed
    rw [hasText_kind_leaving, hasText_kind_leaving, beq_iff_eq, beq_iff_eq] at isNamed
    obtain ⟨name, hasName, before, chars, numbered, there, inside⟩ := lies.named isNamed
    refine ⟨name, chars, ?_, ?_, inside⟩
    · rw [get?_name_leaving, hasName]
      rfl
    · rw [show line.toNat - 1 = before by omega]
      exact there

namespace Analysis

/-- Every finding of a report that has a line lies on a line of a record that was read. -/
theorem issues_lie_on_lines {a : Analysis} {context : StageContext} {stages : List Stage}
    {report : Entries} (inspects : a.Inspects context stages report)
    (catalogued : (report.lookup "file_system").isSome)
    (checked : (report.lookup "code_quality").isSome) :
    ∃ catalog issues, Surveyed context catalog
      ∧ report.lookup "file_system" = some catalog.toValue
      ∧ (Value.map report).at? [.key "code_quality", .key "issues"] = some (.list issues)
      ∧ ∀ issue ∈ issues, issue.get? "line" ≠ some .null →
        ∃ record ∈ catalog.files, ∃ content line, OnRecord issue record content line := by
  obtain ⟨records, issues, recorded, listed, sited⟩ := inspects.exists_issues
  cases recorded with
  | missing noFiles => simp [noFiles] at catalogued
  | surveyed surveyed files =>
    refine ⟨_, _, surveyed, files, listed.at?_eq checked, ?_⟩
    intro published member hasLine
    obtain ⟨issue, inIssues, rfl⟩ := List.mem_map.mp member
    rcases sited issue inIssues with ⟨record, inRecords, content, line, lies⟩ | ofManifest
    · exact ⟨record, inRecords, content, line.toNat, lies.onRecord (surveyed.isOfFile record inRecords)⟩
    · -- A finding about a dependency has no line.
      rw [Issue.get?_line_leaving, ofManifest.line] at hasLine
      exact absurd rfl hasLine

/-- A directory with a function that nothing refers to. -/
def deadDirectory : List (String × FileNode) :=
  [("a.js", .file (String.toUTF8 QualityFindings.deadFunction.content) 0)]

theorem madeOf_deadDirectory {catalog : Catalog}
    (surveyed : Surveyed (directoryContext deadDirectory) catalog) :
    MadeOf catalog.files [QualityFindings.deadFunction] := by
  obtain ⟨interval, patterns, prepared, found⟩ := surveyed
  have excluded : (Cataloguing.preparation (directoryContext deadDirectory)).toOption.map (·.2)
      = some [] := by decide +kernel
  rw [prepared] at excluded
  cases excluded
  have records : (Catalog.survey (directoryContext deadDirectory).tree []
      (directoryContext deadDirectory).project.rootPath
      ⟨[], (directoryContext deadDirectory).settings.maxFileSize⟩
      (.int (directoryContext deadDirectory).settings.recentDays)
      (directoryContext deadDirectory).now).toOption.map (fun catalog => catalog.files.map fun r =>
        (r.path, SourceKind.ofExtension? r.extension, r.content, r.isObfuscated))
      = some [("a.js", some .script, some QualityFindings.deadFunction.content, false)] := by
    decide +kernel
  rw [found] at records
  obtain ⟨record, isOnly, same⟩ := List.map_eq_singleton_iff.mp (Option.some.inj records)
  simp only [Prod.mk.injEq] at same
  obtain ⟨path, kind, content, clear⟩ := same
  have contents : contentsOf catalog.files = [("a.js", QualityFindings.deadFunction.content)] := by
    simp [contentsOf, isOnly, content, path]
  constructor
  · rw [contents, isOnly]
    simp [FileRecord.source?, kind, path, clear]
    rfl
  · rw [contents]
    rfl
  · intro r member
    rw [isOnly, List.mem_singleton] at member
    rw [member, clear]
  · simp [ProjectStructure.ofSources, SourceFile.outline?, QualityFindings.deadFunction]

theorem isDead_deadFunction (cut : Option Int)
    (limited : (directoryContext deadDirectory).settings.scanCharLimit = .ok cut) :
    isDead (References.ofFiles (Contents.filled
      ([QualityFindings.deadFunction].map fun f => (f.path, f.content)) []) cut) "foo" = true := by
  cases limited
  have files : Contents.filled ([QualityFindings.deadFunction].map fun f => (f.path, f.content)) []
      = [("a.js", QualityFindings.deadFunction.content)] := by decide +kernel
  have whole : scannedText QualityFindings.deadFunction.content (some 1000000)
      = QualityFindings.deadFunction.text := by decide +kernel
  have unmentioned : "foo" ∉ fileReferences QualityFindings.deadFunction.text :=
    not_mem_fileReferences QualityFindings.occursOnce_deadFunction
      QualityFindings.notNamed_deadFunction QualityFindings.recognised_deadFunction (by simp)
  have notUsed : "foo" ∉ References.ofFiles
      [("a.js", QualityFindings.deadFunction.content)] (some 1000000) := by
    rw [References.mem_ofFiles]
    simpa [whole] using unmentioned
  rw [files, isDead, Bool.and_eq_true]
  exact ⟨by decide, by simpa using notUsed⟩

def findingStages : List Stage := [.cataloguing, .structureScan, .qualityScan]

theorem deadDirectory_lies_on_line :
    ∃ report catalog issues,
      (ofDirectory findingStages deadDirectory).Inspects (directoryContext deadDirectory) findingStages
        report
      ∧ Surveyed (directoryContext deadDirectory) catalog
      ∧ (Value.map report).at? [.key "code_quality", .key "issues"] = some (.list issues)
      ∧ ∃ issue ∈ issues, issue.get? "name" = some (.str "foo")
        ∧ ∃ record ∈ catalog.files, ∃ content line, OnRecord issue record content line := by
  have builtin : ∀ stage ∈ findingStages, stage ∈ builtinStages := by
    simp [findingStages, builtinStages]
  obtain ⟨report, returned⟩ := exists_report_ofDirectory (by decide +kernel) builtin deadDirectory
  have inspects : (ofDirectory findingStages deadDirectory).Inspects (directoryContext deadDirectory)
      findingStages report := ofDirectory_inspects (by decide +kernel) builtin returned
  obtain ⟨state, settled, published⟩ := inspects.exists_settled
  have catalogued : (report.lookup "file_system").isSome = true := by
    obtain ⟨snapshot, took⟩ := settled.took .cataloguing (by simp [findingStages])
    have given : ((Cataloguing.run (directoryContext deadDirectory)).result.delta?.bind
        (·.lookup "file_system")).isSome = true := by decide +kernel
    rw [published _ (by decide) (by decide), took.left _ (by simp [Stage.cataloguing]),
      Option.isSome_map, Option.isSome_map]
    exact given
  have checked : (report.lookup "code_quality").isSome = true := by
    obtain ⟨found, present⟩ := settled.exists_findings builtin
      (directoryContext_described deadDirectory).numbers (by simp [findingStages])
    rw [published _ (by decide) (by decide), present]
    rfl
  have made : ∀ records, Records (directoryContext deadDirectory) report records →
      MadeOf records [QualityFindings.deadFunction] := by
    intro records recorded
    cases recorded with
    | missing noFiles =>
      rw [noFiles] at catalogued
      cases catalogued
    | surveyed surveyed _ => exact madeOf_deadDirectory surveyed
  obtain ⟨found, listedFound, issue, member, kind, named⟩ := inspects.exists_unused
    (by simp [findingStages]) (by simp [findingStages]) ⟨⟨_, rfl⟩, ⟨_, rfl⟩, ⟨_, rfl⟩, ⟨_, rfl⟩⟩ made
    isDead_deadFunction (by decide +kernel)
  have hasLine := inspects.line_ne_null listedFound member (by
    rcases kind with isFunction | isMethod
    · rw [Value.hasText, get?_of_hasText isFunction]
      decide
    · rw [Value.hasText, get?_of_hasText isMethod]
      decide)
  obtain ⟨catalog, issues, surveyed, -, listed, onRecord⟩ :=
    issues_lie_on_lines inspects catalogued checked
  cases listed.symm.trans (listedFound.at?_eq checked)
  exact ⟨report, catalog, _, inspects, surveyed, listed, issue, member, named,
    onRecord issue member hasLine⟩

end Analysis

/-! ## Files -/

theorem Text.baseName_eq_self_iff {path : String} : baseName path = path ↔ '/' ∉ path.toList := by
  have whole : baseName path = path
      ↔ path.toList.reverse.takeWhile (· != '/') = path.toList.reverse := by
    rw [baseName, afterLast, ← List.reverse_inj, List.reverse_reverse, ← String.toList_inj,
      String.toList_ofList]
  rw [whole, List.takeWhile_eq_self_iff]
  constructor
  · intro each slash
    have different := each '/' (List.mem_reverse.mpr slash)
    simp at different
  · rintro noSlash c member
    rw [bne_iff_ne]
    rintro rfl
    exact noSlash (List.mem_reverse.mp member)

namespace Analysis

/-- Every finding of a report that names a file names the path of a record, except that one about a
dependency quotes the name of the manifest without its folders. -/
theorem issues_name_files {a : Analysis} {context : StageContext} {stages : List Stage}
    {report : Entries} (inspects : a.Inspects context stages report) :
    ∃ records issues, Records context report records
      ∧ Lists report "code_quality" "issues" issues
      ∧ ∀ issue ∈ issues, issue.get? "file" ≠ some .null →
        (issue.hasText "kind" "unused_dependency" = false →
          ∃ record ∈ records, issue.get? "file" = some (.str record.path))
        ∧ (issue.hasText "kind" "unused_dependency" = true →
          ∃ (kind : ManifestKind) (record : FileRecord), record.IsManifest records kind
            ∧ issue.get? "file" = some (.str (Text.baseName record.path))
            ∧ (issue.get? "file" = some (.str record.path) ↔ '/' ∉ record.path.toList)) := by
  obtain ⟨records, issues, recorded, listed, sited⟩ := inspects.exists_issues
  refine ⟨records, _, recorded, listed, ?_⟩
  intro published member _
  obtain ⟨issue, inIssues, rfl⟩ := List.mem_map.mp member
  rw [Issue.hasText_kind_leaving, Issue.get?_file_leaving]
  rcases sited issue inIssues with ⟨record, inRecords, content, line, lies⟩ | ofManifest
  · constructor
    · intro _
      rw [lies.file]
      exact ⟨record, inRecords, rfl⟩
    · intro isDependency
      exact absurd (eq_of_beq isDependency) lies.notDependency
  · constructor
    · intro notDependency
      rw [ofManifest.kind] at notDependency
      simp at notDependency
    · intro _
      obtain ⟨kind, record, isManifest, file⟩ := ofManifest.file
      have leaving : issue.file.leaving = .str (Text.baseName record.path) := by
        rw [file, isManifest.baseName]
        rfl
      refine ⟨kind, record, isManifest, by rw [leaving], ?_⟩
      rw [leaving, Option.some.injEq, Value.str.injEq]
      exact Text.baseName_eq_self_iff

def nestedManifest : List (String × FileNode) :=
  [("frontend", .directory [("package.json",
    .file (String.toUTF8 "\x7b\"dependencies\":\x7b\"lodash\":\"1\"\x7d\x7d") 0)])]

/-- The finding about the manifest in a folder names no record. -/
theorem nestedManifest_not_named :
    ∃ report records issues,
      (ofDirectory builtinStages nestedManifest).Inspects (directoryContext nestedManifest)
        builtinStages report
      ∧ Records (directoryContext nestedManifest) report records
      ∧ Lists report "code_quality" "issues" issues
      ∧ (∀ record ∈ records, record.path = "frontend/package.json")
      ∧ ∃ issue ∈ issues, issue.get? "file" = some (.str "package.json")
        ∧ ∃ (kind : ManifestKind) (record : FileRecord), record.IsManifest records kind
          ∧ issue.get? "file" ≠ some (.str record.path) := by
  obtain ⟨found, paths⟩ :
      ((ofDirectory builtinStages nestedManifest).shown [.key "code_quality", .key "issues"]).map
        (fun v => v.items.map fun issue =>
          (issue.hasText "kind" "unused_dependency", issue.hasText "file" "package.json"))
        = some [(true, true)]
      ∧ ((ofDirectory builtinStages nestedManifest).shown [.key "file_system", .key "files"]).map
        (fun v => v.items.map fun file => file.hasText "path" "frontend/package.json")
        = some [true] := by decide +kernel
  obtain ⟨shownIssues, hasIssues, kinds⟩ := Option.map_eq_some_iff.mp found
  obtain ⟨shownFiles, hasFiles, inFolder⟩ := Option.map_eq_some_iff.mp paths
  obtain ⟨report, returned⟩ := exists_report_of_shown (Option.isSome_of_eq_some hasIssues)
  rw [shown_of_ok returned] at hasIssues hasFiles
  have inspects : (ofDirectory builtinStages nestedManifest).Inspects (directoryContext nestedManifest)
      builtinStages report := ofDirectory_inspects (by decide +kernel) (fun _ member => member) returned
  obtain ⟨records, issues, recorded, listed, named⟩ := issues_name_files inspects
  obtain rfl := listed.eq_of_at? hasIssues
  obtain ⟨issue, rfl, marks⟩ := List.map_eq_singleton_iff.mp kinds
  obtain ⟨isDependency, hasName⟩ := Prod.mk.inj marks
  have file := get?_of_hasText hasName
  obtain ⟨kind, record, isManifest, -, atRoot⟩ := (named issue (by simp) (by rw [file]; simp)).2 isDependency
  have allInFolder : ∀ record ∈ records, record.path = "frontend/package.json" := by
    intro record member
    obtain rfl := recorded.lists.eq_of_at? hasFiles
    have inList : record.toValue.hasText "path" "frontend/package.json" ∈ [true] := by
      rw [← inFolder]
      exact List.mem_map_of_mem (List.mem_map_of_mem member)
    have path := get?_of_hasText (List.mem_singleton.mp inList)
    exact Value.str.inj (Option.some.inj path)
  refine ⟨report, records, _, inspects, recorded, listed, allInFolder, issue, by simp, file, kind,
    record, isManifest, ?_⟩
  rw [ne_eq, atRoot, allInFolder record isManifest.listed]
  decide

end Analysis

end Surveyor
