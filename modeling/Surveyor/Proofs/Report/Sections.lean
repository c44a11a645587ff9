import Surveyor.Proofs.Inspection.ReportedSites
import Surveyor.Report.Markdown

/-! # Reports that can be shown

What the sections go through one by one has to be a list, and what they count has to have its number.
Missing parts do no harm. A report of such a form (`Markdown.Presentable`) is shown, and its section on
findings has a row for each finding that is listed and tells how many are not. Whichever of the built-in
stages ran and whichever of these failed, their report has this form (`Analysis.Inspects.presentable`);
so it is shown, and every finding is either in a row or counted (`Analysis.shown_findings_add_up`).
-/

namespace Surveyor

namespace Markdown

variable {v : Value} {key : String} {report : Entries}

/-! ## Forms -/

def HasList (v : Value) (key : String) : Prop :=
  ∀ field, v.get? key = some field → ∃ items, field = .list items

structure IsStack (v : Value) : Prop where
  isMap : ∃ entries, v = .map entries
  languages : HasList v "languages"
  frameworks : ∀ field, v.get? "frameworks" = some field →
    ∃ found : List Entries, field = .list (found.map .map)
  dependencies : HasList v "dependencies"
  development : HasList v "dev_dependencies"

/-- The form of the part on the code quality: it lists findings, and has their number. -/
structure IsFindings (v : Value) (issues : List Value) : Prop where
  isMap : ∃ entries, v = .map entries
  listed : v.get? "issues" = some (.list issues)
  complexity : HasList v "complexity"
  counted : ∃ summary, v.get? "summary" = some (.map summary)
    ∧ summary.lookup "total_issues" = some (.ofNat issues.length)

/-- A report whose parts, as far as there are any, have the form in which they are shown. -/
structure Presentable (report : Entries) : Prop where
  record : ∀ v, report.lookup "meta" = some v → HasList v "layers_executed"
  profile : ∀ v, report.lookup "tech_stack" = some v → IsStack v
  findings : ∀ v, report.lookup "code_quality" = some v → ∃ issues, IsFindings v issues
  locations : ∀ v, report.lookup "key_locations" = some v → HasList v "entry_points"

/-- The lines on findings: a row for each of some of them, and how many more there are, if any. -/
inductive IssueSection : (rows : List String) → (further : Nat) → List String → Prop
  | empty : IssueSection [] 0 ["No issues found."]
  | entire {rows : List String} (total : String) (filled : rows ≠ []) :
    IssueSection rows 0 (["Total: " ++ total, "", "| Severity | Kind | Name | Location | Note |",
      "|----------|------|------|----------|------|"] ++ rows)
  | cut {rows : List String} {further : Nat} (total : String) (filled : rows ≠ []) (more : 0 < further) :
    IssueSection rows further (["Total: " ++ total, "", "| Severity | Kind | Name | Location | Note |",
      "|----------|------|------|----------|------|"] ++ rows
      ++ ["", "_" ++ toString further ++ " more issue(s) in the JSON report._"])

/-! ## Fields -/

theorem fieldMembers_eq {items : List Value} (here : v.get? key = some (.list items)) :
    fieldMembers v key = .ok items := by
  rw [fieldMembers, here]
  rfl

/-- An empty list does not count as given, but has no members either. -/
theorem givenMembers_eq {items : List Value} (here : v.get? key = some (.list items)) :
    givenMembers v key = .ok items := by
  rw [givenMembers, isGiven, Value.get, here]
  cases items <;> rfl

theorem HasList.exists_fieldMembers (has : HasList v key) : ∃ items, fieldMembers v key = .ok items := by
  cases here : v.get? key with
  | none => exact ⟨[], by rw [fieldMembers, here]⟩
  | some field =>
    obtain ⟨items, rfl⟩ := has field here
    exact ⟨items, fieldMembers_eq here⟩

theorem givenMembers_of_none (missing : v.get? key = none) : givenMembers v key = .ok [] := by
  rw [givenMembers, isGiven, Value.get, missing]
  rfl

theorem HasList.exists_givenMembers (has : HasList v key) : ∃ items, givenMembers v key = .ok items := by
  cases here : v.get? key with
  | none => exact ⟨[], givenMembers_of_none here⟩
  | some field =>
    obtain ⟨items, rfl⟩ := has field here
    exact ⟨items, givenMembers_eq here⟩

/-- A part is that of the report, or an empty one in place of what is missing or empty. -/
theorem part_of {P : Value → Prop} (empty : P (.map [])) (each : ∀ v, report.lookup key = some v → P v) :
    P (part (.map report) key) := by
  unfold part
  split
  · next given =>
    have found : (Value.map report).get key = (report.lookup key).getD .null := rfl
    rw [isGiven, found] at given
    rw [found]
    cases here : report.lookup key with
    | none =>
      rw [here] at given
      cases given
    | some v => exact each v here
  · exact empty

theorem mappingPart_of {P : Value → Prop} (empty : P (.map []))
    (each : ∀ v, report.lookup key = some v → P v ∧ ∃ entries, v = .map entries) :
    ∃ v, mappingPart (.map report) key = .ok v ∧ P v := by
  obtain ⟨holds, entries, isMap⟩ := part_of (P := fun v => P v ∧ ∃ entries, v = .map entries)
    ⟨empty, [], rfl⟩ each
  refine ⟨_, ?_, holds⟩
  rw [mappingPart, isMap]

/-! ## Sections -/

theorem isStack_empty : IsStack (.map []) where
  isMap := ⟨[], rfl⟩
  languages := fun _ here => nomatch here
  frameworks := fun _ here => nomatch here
  dependencies := fun _ here => nomatch here
  development := fun _ here => nomatch here

theorem exists_frameworkNames (found : List Entries) :
    ∃ names, frameworkNames (found.map .map) = .ok names := by
  induction found with
  | nil => exact ⟨[], rfl⟩
  | cons entries rest inductionHypothesis =>
    obtain ⟨names, further⟩ := inductionHypothesis
    rw [List.map_cons, frameworkNames, further]
    exact ⟨_, rfl⟩

theorem IsStack.exists_frameworkNames (isStack : IsStack v) :
    ∃ found names, givenMembers v "frameworks" = .ok found ∧ frameworkNames found = .ok names := by
  cases here : v.get? "frameworks" with
  | none => exact ⟨[], [], givenMembers_of_none here, rfl⟩
  | some field =>
    obtain ⟨found, rfl⟩ := isStack.frameworks field here
    obtain ⟨names, named⟩ := Markdown.exists_frameworkNames found
    exact ⟨_, names, givenMembers_eq here, named⟩

theorem IsStack.exists_stack (isStack : IsStack v) (names : List String) :
    ∃ lines, stack v names = .ok lines := by
  obtain ⟨languages, hasLanguages⟩ := isStack.languages.exists_givenMembers
  obtain ⟨production, hasProduction⟩ := isStack.dependencies.exists_fieldMembers
  obtain ⟨development, hasDevelopment⟩ := isStack.development.exists_fieldMembers
  simp only [stack, hasLanguages, hasProduction, hasDevelopment, bind, Except.bind, pure, Except.pure]
  split
  · exact ⟨_, rfl⟩
  · exact ⟨_, rfl⟩

theorem HasList.exists_entryPoints (has : HasList v "entry_points") :
    ∃ lines, entryPoints v = .ok lines := by
  obtain ⟨found, members⟩ := has.exists_givenMembers
  simp only [entryPoints, members, bind, Except.bind, pure, Except.pure]
  split
  · exact ⟨_, rfl⟩
  · exact ⟨_, rfl⟩

/-! ## Findings -/

/-- Findings that are not listed are counted. -/
theorem unlisted_eq {summary : Value} {listed further : Nat}
    (counted : summary.get? "total_issues" = some (.ofNat (listed + further))) :
    unlisted summary listed
      = .ok (if 0 < further then
          ["", "_" ++ toString further ++ " more issue(s) in the JSON report._"] else []) := by
  have compared : (Value.compareNumbers? (.int (listed + further : Nat)) (.int listed) == some .gt)
      = decide (0 < further) := by
    rw [Value.compareNumbers?, Bool.eq_iff_iff, beq_iff_eq, Option.some.injEq, Int.compare_eq_gt,
      decide_eq_true_iff]
    omega
  have rest : (less (.int (listed + further : Nat)) listed).display = toString further := by
    have remaining : ((listed + further : Nat) : Int) - listed = further := by omega
    show toString (((listed + further : Nat) : Int) - listed) = _
    rw [remaining]
    rfl
  rw [unlisted, counted]
  simp only [Value.ofNat, compared, rest, decide_eq_true_eq]
  split <;> rfl

theorem exists_issues {found : List Value} {summary : Value} {further : Nat}
    (counted : summary.get? "total_issues" = some (.ofNat (found.length + further)))
    (complete : found = [] → further = 0) :
    ∃ lines, issues found summary = .ok lines ∧ IssueSection (found.map issueRow) further lines := by
  cases found with
  | nil =>
    obtain rfl := complete rfl
    exact ⟨_, rfl, .empty⟩
  | cons issue rest =>
    have filled : (issue :: rest).map issueRow ≠ [] := List.cons_ne_nil _ _
    rw [issues, if_neg (by simp), unlisted_eq counted]
    refine ⟨_, rfl, ?_⟩
    rw [String.append_assoc]
    by_cases more : 0 < further
    · rw [if_pos more]
      exact .cut _ filled more
    · obtain rfl := Nat.eq_zero_of_not_pos more
      rw [if_neg more, List.append_nil]
      exact .entire _ filled

theorem IsFindings.isGiven {issues : List Value} (isFindings : IsFindings v issues) :
    v.isGiven = true := by
  obtain ⟨entries, rfl⟩ := isFindings.isMap
  cases entries with
  | nil => cases isFindings.listed
  | cons entry rest => rfl

/-- Findings are listed, or else counted. -/
theorem length_listed (issues : List Value) :
    (issues.take maxIssues).length + (issues.length - maxIssues) = issues.length := by
  rw [List.length_take]
  omega

/-- The section on the code quality begins with the findings that are listed. -/
inductive QualitySection (issues : List Value) : List String → Prop
  | mk {found : List String} (after : List String)
    (isSection : IssueSection ((issues.take maxIssues).map issueRow) (issues.length - maxIssues) found) :
    QualitySection issues (["## Issues", ""] ++ found ++ after)

theorem IsFindings.exists_quality {issues : List Value} (isFindings : IsFindings v issues)
    (complex : List Value) :
    ∃ lines, quality v (issues.take maxIssues) complex = .ok lines ∧ QualitySection issues lines := by
  obtain ⟨summary, hasSummary, counted⟩ := isFindings.counted
  have summaryPart : part v "summary" = .map summary := by
    have filled : (Value.map summary).isGiven = true := by
      cases summary with
      | nil => cases counted
      | cons entry rest => rfl
    rw [part, Markdown.isGiven, Value.get, hasSummary, Option.getD_some, if_pos filled]
  have complete : issues.take maxIssues = [] → issues.length - maxIssues = 0 := by
    intro nothing
    rw [List.take_eq_nil_iff] at nothing
    rcases nothing with impossible | rfl
    · cases impossible
    · rfl
  obtain ⟨found, written, isSection⟩ := exists_issues
    (show (Value.map summary).get? "total_issues" = _ by rw [length_listed]; exact counted) complete
  refine ⟨_, ?_, .mk ([""] ++ complexFiles complex) isSection⟩
  simp only [quality, isFindings.isGiven, Bool.not_true, Bool.false_eq_true, if_false, summaryPart,
    written, bind, Except.bind, pure, Except.pure, List.append_assoc]

/-! ## The report -/

/-- Without a part on the code quality there is no such section, and nothing is listed. -/
theorem Presentable.exists_qualityLines (presentable : Presentable report) :
    ∃ q issues complex lines, mappingPart (.map report) "code_quality" = .ok q
      ∧ givenMembers q "issues" = .ok issues ∧ givenMembers q "complexity" = .ok complex
      ∧ quality q (issues.take maxIssues) (complex.take maxComplexFiles) = .ok lines
      ∧ ∀ v issues, report.lookup "code_quality" = some v → IsFindings v issues →
        QualitySection issues lines := by
  cases here : report.lookup "code_quality" with
  | none =>
    have missing : (Value.map report).get "code_quality" = .null := by
      show (report.lookup "code_quality").getD .null = _
      rw [here]
      rfl
    refine ⟨.map [], [], [], [], ?_, rfl, rfl, rfl, fun _ _ impossible => nomatch impossible⟩
    simp [mappingPart, part, isGiven, missing, Value.isGiven]
  | some v =>
    obtain ⟨issues, isFindings⟩ := presentable.findings v here
    obtain ⟨entries, isMap⟩ := isFindings.isMap
    obtain ⟨complex, hasComplex⟩ := isFindings.complexity.exists_givenMembers
    obtain ⟨lines, written, isSection⟩ := isFindings.exists_quality (complex.take maxComplexFiles)
    have found : (Value.map report).get "code_quality" = v := by
      show (report.lookup "code_quality").getD .null = _
      rw [here]
      rfl
    refine ⟨v, issues, complex, lines, ?_, givenMembers_eq isFindings.listed, hasComplex, written, ?_⟩
    · rw [mappingPart, part, isGiven, found, if_pos isFindings.isGiven, isMap]
    · intro w others same alsoFindings
      obtain rfl := Option.some.inj same
      obtain rfl := Value.list.inj (Option.some.inj (isFindings.listed.symm.trans alsoFindings.listed))
      exact isSection

/-- The lines of a report on the findings of its part on the code quality: a row for each finding that is
listed, and how many more of the total there are. -/
structure ShowsFindings (quality : Value) (lines : List String) (found : List Value)
    (further total : Nat) : Prop where
  listed : ∃ issues, quality.get? "issues" = some (.list issues) ∧ found = issues.take maxIssues
  counted : quality.at? [.key "summary", .key "total_issues"] = some (.ofNat total)
  written : ∃ before part after, lines = before ++ (["## Issues", ""] ++ part) ++ after
    ∧ IssueSection (found.map issueRow) further part

theorem IssueSection.mem {rows part : List String} {further : Nat}
    (isSection : IssueSection rows further part) {row : String} (member : row ∈ rows) : row ∈ part := by
  cases isSection with
  | empty => cases member
  | entire | cut => simp [member]

theorem ShowsFindings.row_mem {quality : Value} {lines : List String} {found : List Value}
    {further total : Nat} (shows_ : ShowsFindings quality lines found further total) {issue : Value}
    (member : issue ∈ found) : issueRow issue ∈ lines := by
  obtain ⟨before, part, after, rfl, isSection⟩ := shows_.written
  have inPart : issueRow issue ∈ part := isSection.mem (List.mem_map_of_mem member)
  simp [inPart]

/-- A single finding is listed. -/
theorem ShowsFindings.found_eq {quality : Value} {lines : List String} {found : List Value}
    {further total : Nat} (shows_ : ShowsFindings quality lines found further total) {items : Value}
    (reached : quality.at? [.key "issues"] = some items) {α : Type} {look : Value → α} {seen : α}
    (single : items.items.map look = [seen]) : ∃ issue, found = [issue] ∧ look issue = seen := by
  obtain ⟨issues, listed, rfl⟩ := shows_.listed
  have isList : items = .list issues := by
    simpa [Value.at?, Value.turn?, listed] using reached.symm
  rw [isList] at single
  obtain ⟨issue, single, isSeen⟩ := List.map_eq_singleton_iff.mp single
  refine ⟨issue, ?_, isSeen⟩
  rw [show issues = [issue] from single]
  rfl

theorem IsFindings.shows {issues : List Value} (isFindings : IsFindings v issues)
    {part : List String} (isSection : QualitySection issues part) (before after : List String) :
    ShowsFindings v (before ++ part ++ after) (issues.take maxIssues) (issues.length - maxIssues)
      issues.length where
  listed := ⟨issues, isFindings.listed, rfl⟩
  counted := by
    obtain ⟨summary, hasSummary, counted⟩ := isFindings.counted
    have total : (Value.map summary).get? "total_issues" = some (.ofNat issues.length) := counted
    simp only [Value.at?, Value.turn?, hasSummary, Option.bind_some, total]
  written := by
    obtain ⟨rest, isSection⟩ := isSection
    refine ⟨before, _, rest ++ after, ?_, isSection⟩
    simp only [List.append_assoc]

/-- A report of this form is shown, and so are its findings, if it has any part on them. -/
theorem Presentable.exists_lines (presentable : Presentable report) :
    ∃ lines, Markdown.lines (.map report) = .ok lines
      ∧ ∀ v, report.lookup "code_quality" = some v → ∃ issues, IsFindings v issues
        ∧ ShowsFindings v lines (issues.take maxIssues) (issues.length - maxIssues) issues.length := by
  obtain ⟨profile, isProfile, isStack⟩ := mappingPart_of isStack_empty
    fun v here => ⟨presentable.profile v here, (presentable.profile v here).isMap⟩
  obtain ⟨frameworks, names, hasFrameworks, named⟩ := isStack.exists_frameworkNames
  obtain ⟨stackLines, hasStack⟩ := isStack.exists_stack names
  obtain ⟨q, issues, complex, qualityLines, isQuality, hasIssues, hasComplex, hasQuality, isSection⟩ :=
    presentable.exists_qualityLines
  have record : HasList (part (.map report) "meta") "layers_executed" :=
    part_of (fun _ here => nomatch here) presentable.record
  obtain ⟨layers, hasLayers⟩ := record.exists_fieldMembers
  have locations : HasList (part (.map report) "key_locations") "entry_points" :=
    part_of (fun _ here => nomatch here) presentable.locations
  obtain ⟨entryLines, hasEntries⟩ := locations.exists_entryPoints
  simp only [lines, isProfile, hasFrameworks, named, isQuality, hasIssues, hasComplex, hasLayers,
    hasStack, hasQuality, hasEntries, bind, Except.bind, pure, Except.pure]
  refine ⟨_, rfl, fun v here => ?_⟩
  obtain ⟨issues, isFindings⟩ := presentable.findings v here
  refine ⟨issues, isFindings, ?_⟩
  rw [List.append_assoc (_ ++ qualityLines)]
  exact isFindings.shows (isSection v issues here isFindings) _ _

end Markdown

/-! ## Parts of a report -/

/-- A part that a built-in stage provides is missing from a report, or it is what the stage returned. -/
theorem Analysis.Inspects.lookup_cases {a : Analysis} {context : StageContext} {stages : List Stage}
    {report : Entries} (inspects : a.Inspects context stages report) {stage : Stage}
    (builtin : stage ∈ builtinStages) {part : String} (provided : part ∈ stage.provides)
    (shown : isInternalKey part = false) :
    report.lookup part = none
      ∨ ∃ snapshot delta, (stage.run context snapshot).result.delta? = some delta
        ∧ report.lookup part = (delta.lookup part).map Value.leaving := by
  obtain ⟨state, settled, published⟩ := inspects.exists_settled
  have tidy : stage.Tidy context := tidy_of_builtin builtin
  have notRecord : part ≠ recordKey := by
    rintro rfl
    exact tidy.noRecord provided
  rw [published part shown notRecord]
  rcases settled.provided_cases inspects.builtin builtin with
    missing | ⟨snapshot, delta, took, returned, left⟩
  · rw [missing part provided]
    exact .inl rfl
  · rw [left part provided, Option.map_map]
    exact .inr ⟨snapshot, delta, returned, rfl⟩

/-- The findings of a report are missing, or those of some search. -/
theorem Analysis.Inspects.findings_cases {a : Analysis} {context : StageContext} {stages : List Stage}
    {report : Entries} (inspects : a.Inspects context stages report) :
    report.lookup "code_quality" = none
      ∨ ∃ snapshot i references findings, QualityInput.ofSnapshot snapshot = .ok i
        ∧ QualityFindings.ofInput i references context.settings = .ok findings
        ∧ report.lookup "code_quality" = some findings.toValue.leaving := by
  rcases inspects.lookup_cases (by simp [builtinStages])
    (show "code_quality" ∈ Stage.qualityScan.provides by simp [Stage.qualityScan]) (by decide) with
    missing | ⟨snapshot, delta, returned, here⟩
  · exact .inl missing
  · obtain ⟨i, references, findings, read, found, rfl⟩ := QualityFindings.exists_of_delta returned
    exact .inr ⟨snapshot, i, references, findings, read, found, here⟩

namespace Markdown

/-! ## The forms of the parts -/

theorem HasList.leaving {v : Value} {key : String} (has : HasList v key)
    (shown : isInternalKey key = false) : HasList v.leaving key := by
  intro field here
  rw [get?_leaving v shown] at here
  obtain ⟨original, found, rfl⟩ := Option.map_eq_some_iff.mp here
  obtain ⟨items, rfl⟩ := has original found
  exact ⟨_, leaving_list items⟩

theorem hasList_of_get? {v : Value} {key : String} {items : List Value}
    (here : v.get? key = some (.list items)) : HasList v key := by
  intro field found
  rw [here] at found
  exact ⟨items, (Option.some.inj found).symm⟩

theorem isStack_leaving (profile : StackProfile) : IsStack profile.toValue.leaving where
  isMap := ⟨_, rfl⟩
  languages := (hasList_of_get? rfl : HasList profile.toValue "languages").leaving (by decide)
  frameworks := by
    intro field here
    rw [get?_leaving _ (by decide)] at here
    obtain ⟨original, found, rfl⟩ := Option.map_eq_some_iff.mp here
    obtain rfl : Value.list (profile.frameworks.map Framework.toValue) = original := Option.some.inj found
    refine ⟨profile.frameworks.map fun f => f.toValue.leaving.entries, ?_⟩
    rw [leaving_list, List.map_map, List.map_map]
    rfl
  dependencies := (hasList_of_get? rfl : HasList profile.toValue "dependencies").leaving (by decide)
  development := (hasList_of_get? rfl : HasList profile.toValue "dev_dependencies").leaving (by decide)

theorem isFindings_leaving (findings : QualityFindings) :
    IsFindings findings.toValue.leaving (findings.issues.map fun issue => issue.toValue.leaving) where
  isMap := ⟨_, rfl⟩
  listed := findings.get?_issues_leaving
  complexity := (hasList_of_get? rfl : HasList findings.toValue "complexity").leaving (by decide)
  counted := by
    have summary : findings.toValue.get? "summary" = some findings.summary := rfl
    have total : findings.summary.get? "total_issues" = some (.ofNat findings.issues.length) := rfl
    have leaves := get?_leaving findings.summary (show isInternalKey "total_issues" = false by decide)
    rw [total, Option.map_some] at leaves
    refine ⟨_, by rw [get?_leaving _ (by decide), summary]; rfl, ?_⟩
    rw [List.length_map]
    exact leaves

end Markdown

open Markdown

/-- The record of a run that returned has the list of its layers. -/
theorem Analysis.hasList_record {a : Analysis} {report : Entries} (returned : a.run.result = .ok report)
    {v : Value} (here : report.lookup "meta" = some v) : HasList v "layers_executed" := by
  obtain ⟨_, _, _, state, -, ⟨_, merged, duration, _, -, entered⟩, published⟩ :=
    exists_state_of_ok returned
  simp only [finishRecord, bind_eq_ok] at entered
  obtain ⟨record, isRecord, layers, areLayers, failed, -, entered⟩ := entered
  have listed : record.lookup layersKey = some (.list layers) := by
    unfold recordLayers at areLayers
    split at areLayers <;> cases areLayers
    assumption
  split at entered
  · cases entered
    cases published
    have kept : (Entries.insert "duration_ms" (.int duration) record).lookup layersKey
        = some (.list layers) := by
      rw [Entries.lookup_insert, if_neg (by decide), listed]
    rw [lookup_publishEntries_of_shown (by decide), Entries.lookup_insert,
      if_pos (show "meta" = recordKey from rfl)] at here
    cases here
    apply hasList_of_get?
    show (Value.publishEntries _).lookup layersKey = _
    rw [lookup_publishEntries_of_shown (by decide), kept, Option.map_some, Value.publish]
  · cases entered

theorem Analysis.Inspects.presentable {a : Analysis} {context : StageContext} {stages : List Stage}
    {report : Entries} (inspects : a.Inspects context stages report) : Presentable report where
  record := fun _ here => hasList_record inspects.returned here
  profile := by
    intro v here
    rcases inspects.lookup_cases (by simp [builtinStages])
      (show "tech_stack" ∈ Stage.stackProfile.provides by simp [Stage.stackProfile]) (by decide) with
      missing | ⟨snapshot, delta, returned, present⟩
    · rw [missing] at here
      cases here
    · obtain ⟨profile, _, -, rfl⟩ := StackProfile.exists_of_delta returned
      obtain rfl : profile.toValue.leaving = v := Option.some.inj (present.symm.trans here)
      exact isStack_leaving profile
  findings := by
    intro v here
    rcases inspects.findings_cases with missing | ⟨_, _, _, findings, -, -, present⟩
    · rw [missing] at here
      cases here
    · obtain rfl := Option.some.inj (present.symm.trans here)
      exact ⟨_, isFindings_leaving findings⟩
  locations := by
    intro v here
    rcases inspects.lookup_cases (by simp [builtinStages])
      (show "key_locations" ∈ Stage.locations.provides by simp [Stage.locations]) (by decide) with
      missing | ⟨snapshot, delta, returned, present⟩
    · rw [missing] at here
      cases here
    · have result := StageRun.delta?_ofResult.mp returned
      simp only [bind_eq_ok, pure_eq_ok] at result
      obtain ⟨found, -, rfl⟩ := result
      obtain rfl : found.toValue.leaving = v := Option.some.inj (present.symm.trans here)
      exact (hasList_of_get? rfl : HasList found.toValue "entry_points").leaving (by decide)

namespace Analysis

/-- A report of the built-in stages is shown as Markdown. If it has a part on the code quality, then the
rows on findings and the findings that are said to be in the other report only add up to the total. -/
theorem shown_findings_add_up {a : Analysis} {context : StageContext} {stages : List Stage}
    {report : Entries} (inspects : a.Inspects context stages report) :
    ∃ lines, Markdown.lines (.map report) = .ok lines
      ∧ Markdown.document (.map report) = .ok (Text.stripRight isBlank (Text.join "\n" lines) ++ "\n")
      ∧ ∀ quality, report.lookup "code_quality" = some quality → ∃ found further total,
        ShowsFindings quality lines found further total
        ∧ (found.map issueRow).length + further = total := by
  obtain ⟨lines, written, shows_⟩ := inspects.presentable.exists_lines
  refine ⟨lines, written, by rw [document, written]; rfl, fun quality here => ?_⟩
  obtain ⟨issues, -, shownFindings⟩ := shows_ quality here
  refine ⟨_, _, _, shownFindings, ?_⟩
  rw [List.length_map]
  exact length_listed issues

/-- A report on a directory that is known by what its findings look like. -/
theorem exists_report_of_issues {entries : List (String × FileNode)} {α : Type} {look : Value → α}
    {seen : List α}
    (listed : ((ofDirectory builtinStages entries).shown [.key "code_quality", .key "issues"]).map
      (·.items.map look) = some seen) :
    ∃ report quality items,
      (ofDirectory builtinStages entries).Inspects (directoryContext entries) builtinStages report
      ∧ report.lookup "code_quality" = some quality
      ∧ quality.at? [.key "issues"] = some items ∧ items.items.map look = seen := by
  obtain ⟨items, hasIssues, areSeen⟩ := Option.map_eq_some_iff.mp listed
  obtain ⟨report, returned⟩ := exists_report_of_shown (Option.isSome_of_eq_some hasIssues)
  rw [shown_of_ok returned] at hasIssues
  obtain ⟨quality, here, inQuality⟩ := Option.bind_eq_some_iff.mp hasIssues
  have inspects := ofDirectory_inspects (by decide +kernel) (fun _ member => member) returned
  exact ⟨report, quality, items, inspects, here, inQuality, areSeen⟩

def importingDirectory (script : String) : List (String × FileNode) :=
  [(script, .file (String.toUTF8 "import \x7bx\x7d from 'y';") 0)]

/-- What the finding in this directory looks like: its row, its name and its file. -/
theorem importingDirectory_shown :
    ((ofDirectory builtinStages (importingDirectory "a.js")).shown
        [.key "code_quality", .key "issues"]).map (·.items.map fun issue =>
          (issueRow issue, Markdown.shown issue "name", Markdown.shown issue "file"))
      = some [("| info | unused_import | x | a.js:1 | never used |", "x", "a.js")]
    ∧ ((ofDirectory builtinStages (importingDirectory "a.js")).shown
        [.key "code_quality", .key "summary", .key "total_issues"]).map Value.asInt = some 1 := by
  decide +kernel

theorem importingDirectory_findings_add_up :
    ∃ report lines quality issue,
      (ofDirectory builtinStages (importingDirectory "a.js")).Inspects
        (directoryContext (importingDirectory "a.js")) builtinStages report
      ∧ Markdown.lines (.map report) = .ok lines
      ∧ report.lookup "code_quality" = some quality
      ∧ ShowsFindings quality lines [issue] 0 1
      ∧ issueRow issue = "| info | unused_import | x | a.js:1 | never used |" := by
  obtain ⟨listed, counted⟩ := importingDirectory_shown
  obtain ⟨report, quality, items, inspects, here, inQuality, single⟩ := exists_report_of_issues listed
  obtain ⟨number, hasNumber, isOne⟩ := Option.map_eq_some_iff.mp counted
  rw [shown_of_ok inspects.returned] at hasNumber
  obtain ⟨lines, written, -, shows_⟩ := shown_findings_add_up inspects
  obtain ⟨found, further, total, shownFindings, addUp⟩ := shows_ quality here
  obtain ⟨issue, rfl, seen⟩ := shownFindings.found_eq inQuality single
  have isTotal : number = .ofNat total := by
    obtain ⟨quality', here', inQuality'⟩ := Option.bind_eq_some_iff.mp hasNumber
    cases here.symm.trans here'
    exact Option.some.inj (inQuality'.symm.trans shownFindings.counted)
  obtain rfl : total = 1 := by
    rw [isTotal] at isOne
    exact Int.ofNat.inj isOne
  obtain rfl : further = 0 := by simpa using addUp
  exact ⟨report, lines, quality, issue, inspects, written, here, shownFindings, (Prod.mk.inj seen).1⟩

end Analysis

end Surveyor
