import Surveyor.Proofs.Json.Written
import Surveyor.Proofs.Report.Sections
import Surveyor.Proofs.Source.LineNumbers

/-! # Rows of tables

A row is written without regard to what is in its cells. It is read as these cells exactly if there is
no separator and no line break in any of them (`Markdown.isTableLine_row_iff`). Of the five cells of a
row on a finding, only the name and the file are quoted from the project; the other three are words of
the analysis, and a line is a number. So a row is cut into its five cells unless there is a separator or
a line break in one of these two (`Markdown.IsReported.isTableLine_iff`).
-/

namespace Surveyor

namespace Markdown

/-! ## Cells -/

/-- A text that may stand in a cell: no separator of cells and no line break is in it. -/
def IsCell (s : String) : Prop := '|' ∉ s.toList ∧ '\n' ∉ s.toList

/-- One line that the separators cut into these cells, each between single blanks. -/
structure IsTableLine (line : String) (cells : List String) : Prop where
  unbroken : '\n' ∉ line.toList
  parts : Text.split '|' line = "" :: (cells.map fun cell => " " ++ cell ++ " ") ++ [""]

/-- A cell with the blanks around it, and the separator behind it. -/
def cellChars (cell : String) : List Char := ' ' :: cell.toList ++ [' ', '|']

theorem toList_row {cells : List String} (nonempty : cells ≠ []) :
    (row cells).toList = '|' :: cells.flatMap cellChars := by
  have members : ∀ cells : List String, cells ≠ [] →
      ' ' :: ((" | ".intercalate cells).toList ++ [' ', '|']) = cells.flatMap cellChars := by
    intro cells nonempty
    induction cells with
    | nil => exact absurd rfl nonempty
    | cons cell rest inductionHypothesis =>
      cases rest with
      | nil => simp [cellChars]
      | cons next rest =>
        have further := inductionHypothesis (by simp)
        rw [List.flatMap_cons, ← further, String.intercalate_cons_cons]
        simp [cellChars]
  rw [row, Text.join, String.toList_append, String.toList_append, ← members cells nonempty]
  simp

theorem unbroken_row_iff {cells : List String} (nonempty : cells ≠ []) :
    '\n' ∉ (row cells).toList ↔ ∀ cell ∈ cells, '\n' ∉ cell.toList := by
  rw [toList_row nonempty]
  simp [cellChars]

theorem split_of_not_mem {separator : Char} {s : String} (absent : separator ∉ s.toList) :
    Text.split separator s = [s] := by
  have whole : Text.splitChars separator (s.toList ++ []) = [s.toList ++ []] :=
    Text.splitChars_append_of_not_mem absent rfl
  rw [List.append_nil] at whole
  simp [Text.split, whole]

theorem length_split (separator : Char) (s : String) :
    (Text.split separator s).length = s.toList.count separator + 1 := by
  rw [Text.split, List.length_map, Text.length_splitChars]

/-- A row is cut at its own separators, and at those within its cells. -/
theorem split_row {cells : List String} (nonempty : cells ≠ []) :
    Text.split '|' (row cells)
      = "" :: (cells.flatMap fun cell => Text.split '|' (" " ++ cell ++ " ")) ++ [""] := by
  have members : ∀ cells : List String, Text.splitChars '|' (cells.flatMap cellChars)
      = (cells.flatMap fun cell => Text.splitChars '|' (" " ++ cell ++ " ").toList) ++ [[]] := by
    intro cells
    induction cells with
    | nil => rfl
    | cons cell rest inductionHypothesis =>
      have spelled : cellChars cell ++ rest.flatMap cellChars
          = (" " ++ cell ++ " ").toList ++ '|' :: rest.flatMap cellChars := by
        simp [cellChars]
      rw [List.flatMap_cons, spelled, Text.splitChars_append_cons, inductionHypothesis,
        List.flatMap_cons, List.append_assoc]
  rw [Text.split, toList_row nonempty, Text.splitChars_cons_self, members]
  simp [Text.split, List.map_flatMap]

/-- Every separator within a cell makes one part more. -/
theorem length_flatMap_split (cells : List String) :
    (cells.flatMap fun cell => Text.split '|' (" " ++ cell ++ " ")).length
      = cells.length + (cells.flatMap String.toList).count '|' := by
  induction cells with
  | nil => rfl
  | cons cell rest inductionHypothesis =>
    have blanks : (" " ++ cell ++ " ").toList.count '|' = cell.toList.count '|' := by simp
    rw [List.flatMap_cons, List.length_append, inductionHypothesis, length_split, blanks,
      List.flatMap_cons, List.count_append, List.length_cons]
    omega

theorem flatMap_split_of_not_mem {cells : List String} (absent : ∀ cell ∈ cells, '|' ∉ cell.toList) :
    (cells.flatMap fun cell => Text.split '|' (" " ++ cell ++ " "))
      = cells.map fun cell => " " ++ cell ++ " " := by
  induction cells with
  | nil => rfl
  | cons cell rest inductionHypothesis =>
    rw [List.forall_mem_cons] at absent
    rw [List.flatMap_cons, inductionHypothesis absent.2, split_of_not_mem (by simp [absent.1])]
    rfl

theorem isTableLine_row_iff {cells : List String} (nonempty : cells ≠ []) :
    IsTableLine (row cells) cells ↔ ∀ cell ∈ cells, IsCell cell := by
  constructor
  · rintro ⟨unbroken, parts⟩ cell member
    rw [split_row nonempty] at parts
    have same := List.append_cancel_right (List.cons.inj parts).2
    have counted := congrArg List.length same
    rw [length_flatMap_split, List.length_map, Nat.add_eq_left, List.count_eq_zero] at counted
    exact ⟨fun separator => counted (List.mem_flatMap.mpr ⟨cell, member, separator⟩),
      (unbroken_row_iff nonempty).mp unbroken cell member⟩
  · intro each
    have unbroken := (unbroken_row_iff nonempty).mpr fun cell member => (each cell member).2
    refine ⟨unbroken, ?_⟩
    rw [split_row nonempty, flatMap_split_of_not_mem fun cell member => (each cell member).1]

/-! ## Rows on findings -/

def issueCells (issue : Value) : List String :=
  [shown issue "severity", shown issue "kind", shown issue "name", location issue, shown issue "tag"]

theorem issueRow_eq (issue : Value) : issueRow issue = row (issueCells issue) := rfl

theorem isCell_append {s s' : String} : IsCell (s ++ s') ↔ IsCell s ∧ IsCell s' := by
  simp only [IsCell, String.toList_append, List.mem_append, not_or]
  constructor
  · rintro ⟨⟨bar, bar'⟩, line, line'⟩
    exact ⟨⟨bar, line⟩, bar', line'⟩
  · rintro ⟨⟨bar, line⟩, bar', line'⟩
    exact ⟨⟨bar, bar'⟩, line, line'⟩

theorem isCell_of_int (n : Int) : IsCell (toString n) :=
  ⟨fun bar => absurd (Json.isWordChar_of_int '|' bar) (by decide),
    fun line => absurd (Json.isWordChar_of_int '\n' line) (by decide)⟩

/-- Under the key is a text that may stand in a cell. -/
def HasWord (v : Value) (key : String) : Prop := ∃ word, v.get? key = some (.str word) ∧ IsCell word

theorem HasWord.isCell {v : Value} {key : String} (has : HasWord v key) : IsCell (shown v key) := by
  obtain ⟨word, here, isCell⟩ := has
  rw [shown, here]
  exact isCell

/-- A finding as reports have it: words of the analysis, the text of a file, and a number of a line or
none. -/
structure IsReported (issue : Value) : Prop where
  severity : HasWord issue "severity"
  kind : HasWord issue "kind"
  tag : HasWord issue "tag"
  file : ∃ path, issue.get? "file" = some (.str path)
  line : issue.get? "line" = some .null ∨ ∃ n : Int, issue.get? "line" = some (.int n)

theorem IsReported.isCell_location_iff {issue : Value} (reported : IsReported issue) :
    IsCell (location issue) ↔ IsCell (shown issue "file") := by
  obtain ⟨path, file⟩ := reported.file
  have isFile : IsCell (if isGiven issue "file" then shown issue "file" else "-")
      ↔ IsCell (shown issue "file") := by
    split
    · exact Iff.rfl
    · next missing =>
      -- A file that does not count as given has no name.
      obtain rfl : path = "" := by simpa [isGiven, Value.get, file, Value.isGiven] using missing
      rw [shown, file]
      exact ⟨fun _ => ⟨by decide, by decide⟩, fun _ => ⟨by decide, by decide⟩⟩
  have isLine : IsCell (if isGiven issue "line" then ":" ++ shown issue "line" else "") := by
    split
    · rcases reported.line with missing | ⟨n, line⟩
      · rw [shown, missing]
        exact ⟨by decide, by decide⟩
      · rw [shown, line]
        exact isCell_append.mpr ⟨⟨by decide, by decide⟩, isCell_of_int n⟩
    · exact ⟨by decide, by decide⟩
  rw [location, isCell_append, isFile]
  exact and_iff_left isLine

theorem IsReported.isTableLine_iff {issue : Value} (reported : IsReported issue) :
    IsTableLine (issueRow issue) (issueCells issue)
      ↔ IsCell (shown issue "name") ∧ IsCell (shown issue "file") := by
  rw [issueRow_eq, isTableLine_row_iff (by simp [issueCells]), ← reported.isCell_location_iff]
  simp [issueCells, reported.severity.isCell, reported.kind.isCell, reported.tag.isCell]

end Markdown

/-! ## The findings of a report -/

open Markdown

namespace Issue

variable (issue : Issue)

theorem get?_severity_leaving :
    issue.toValue.leaving.get? "severity" = some (.str issue.severity) := by
  rw [get?_leaving _ (by decide), get?_toValue_eq]
  rfl

theorem get?_kind_leaving : issue.toValue.leaving.get? "kind" = some (.str issue.kind) := by
  rw [get?_leaving _ (by decide), get?_toValue_eq]
  rfl

theorem get?_tag_leaving : issue.toValue.leaving.get? "tag" = some (.str issue.tag) := by
  rw [get?_leaving _ (by decide), get?_toValue_eq]
  rfl

end Issue

namespace QualityFindings

/-- A note is a word, or a number of lines. -/
theorem isCell_tag {i : QualityInput} {references : References} {settings : Settings}
    {findings : QualityFindings} (found : ofInput i references settings = .ok findings) {issue : Issue}
    (member : issue ∈ findings.issues) : IsCell issue.tag := by
  have isWord : ∀ word ∈ ["never called", "dynamic", "never instantiated", "never used",
      "not imported"], IsCell word := by simp [IsCell]
  have isSize : ∀ size : Nat, IsCell (toString size ++ " lines") := fun size =>
    isCell_append.mpr ⟨isCell_of_int size, by simp [IsCell]⟩
  obtain ⟨c, inKinds, member⟩ := List.mem_flatMap.mp (findings.issues_perm_found.mem_iff.mp member)
  simp only [ofInput, bind_eq_ok, pure_eq_ok] at found
  obtain ⟨functions, foundFunctions, methods, foundMethods, classes, foundClasses, imports,
    foundImports, dependencies, foundDependencies, large, foundLarge, comments, foundComments,
    complexity, -, rfl⟩ := found
  simp only [categoryKinds, List.mem_cons, List.not_mem_nil, or_false] at inKinds
  rcases inKinds with rfl | rfl | rfl | rfl | rfl | rfl | rfl
  · obtain ⟨symbol, -, rfl, -⟩ := mem_unusedSymbols foundFunctions member
    exact isWord _ (by simp [unusedSymbol])
  · obtain ⟨symbol, -, rfl, -⟩ := mem_unusedSymbols foundMethods member
    exact isWord _ (by simp [unusedSymbol])
  · obtain ⟨symbol, -, rfl⟩ := exists_of_mem_unusedClasses foundClasses member
    apply isWord
    simp only [unusedClass]
    split <;> simp
  · cases importFinding_of_mem foundImports member
    exact isWord _ (by simp [unusedImport])
  · obtain ⟨_, _, d, -, -, -, rfl⟩ := exists_of_mem_unusedDependencies foundDependencies member
    exact isWord _ (by simp [unusedDependency])
  · cases sizeFinding_of_mem foundLarge member
    exact isSize _
  · obtain ⟨_, -, _, foundHere, inFile⟩ := exists_of_mem_flatten foundComments member
    obtain ⟨run, -, rfl⟩ := exists_of_mem_commentedCode foundHere inFile
    exact isSize _

theorem hasWords {snapshot : Value} {i : QualityInput} {references : References} {settings : Settings}
    {findings : QualityFindings} (read : QualityInput.ofSnapshot snapshot = .ok i)
    (found : ofInput i references settings = .ok findings) {issue : Issue}
    (member : issue ∈ findings.issues) :
    HasWord issue.toValue.leaving "severity" ∧ HasWord issue.toValue.leaving "kind"
      ∧ HasWord issue.toValue.leaving "tag" := by
  have sorted := sorted_of_ofInput read found
  obtain ⟨c, inKinds, inCategory⟩ :=
    List.mem_flatMap.mp (findings.issues_perm_found.mem_iff.mp member)
  have severities : ∀ severity ∈ Issue.severities, IsCell severity := by
    simp [Issue.severities, IsCell]
  have kinds : ∀ c ∈ categoryKinds, IsCell c.2 := by simp [categoryKinds, IsCell]
  refine ⟨⟨_, issue.get?_severity_leaving, severities _ (sorted.severity c inKinds issue inCategory)⟩,
    ⟨_, issue.get?_kind_leaving, ?_⟩, ⟨_, issue.get?_tag_leaving, isCell_tag found member⟩⟩
  rw [sorted.kind c inKinds issue inCategory]
  exact kinds c inKinds

end QualityFindings

namespace Analysis

theorem Inspects.isReported {a : Analysis} {context : StageContext} {stages : List Stage}
    {report : Entries} (inspects : a.Inspects context stages report) {quality : Value}
    (here : report.lookup "code_quality" = some quality) {issues : List Value}
    (isFindings : IsFindings quality issues) : ∀ issue ∈ issues, IsReported issue := by
  intro issue member
  obtain ⟨severity, kind, tag⟩ :
      HasWord issue "severity" ∧ HasWord issue "kind" ∧ HasWord issue "tag" := by
    rcases inspects.findings_cases with
      missing | ⟨snapshot, i, references, findings, read, found, present⟩
    · cases missing.symm.trans here
    · obtain rfl := Option.some.inj (present.symm.trans here)
      obtain rfl := Value.list.inj
        (Option.some.inj ((isFindings_leaving findings).listed.symm.trans isFindings.listed))
      obtain ⟨original, inFindings, rfl⟩ := List.mem_map.mp member
      exact QualityFindings.hasWords read found inFindings
  obtain ⟨records, found, -, listed, sited⟩ := inspects.exists_issues
  -- Where a finding lies is known of the findings of the stage, which are the ones reported.
  have same : issues = found.map fun issue => issue.toValue.leaving := by
    obtain ⟨entries, rfl⟩ := isFindings.isMap
    exact Lists.unique (.inr ⟨entries, here, isFindings.listed⟩) listed
  rw [same] at member
  obtain ⟨original, inFound, rfl⟩ := List.mem_map.mp member
  refine ⟨severity, kind, tag, ?_, ?_⟩
  · rw [Issue.get?_file_leaving]
    rcases sited original inFound with ⟨record, -, content, line, lies⟩ | ofManifest
    · exact ⟨record.path, by rw [lies.file]; rfl⟩
    · obtain ⟨manifest, record, -, file⟩ := ofManifest.file
      exact ⟨manifest.fileName, by rw [file]; rfl⟩
  · rw [Issue.get?_line_leaving]
    rcases sited original inFound with ⟨record, -, content, line, lies⟩ | ofManifest
    · exact .inr ⟨line, by rw [lies.hasLine]; rfl⟩
    · exact .inl (by rw [ofManifest.line]; rfl)

/-- Every row on a finding of a report has the five values in its cells. It is read as these exactly if
neither the name nor the file of the finding has a separator or a line break in it. -/
theorem finding_rows_are_table_lines_iff {a : Analysis} {context : StageContext} {stages : List Stage}
    {report : Entries} (inspects : a.Inspects context stages report) :
    ∃ lines, Markdown.lines (.map report) = .ok lines
      ∧ ∀ quality, report.lookup "code_quality" = some quality → ∃ found further total,
        ShowsFindings quality lines found further total
        ∧ ∀ issue ∈ found, issueRow issue ∈ lines ∧ issueRow issue = row (issueCells issue)
          ∧ (IsTableLine (issueRow issue) (issueCells issue)
            ↔ IsCell (Markdown.shown issue "name") ∧ IsCell (Markdown.shown issue "file")) := by
  obtain ⟨lines, written, shows_⟩ := inspects.presentable.exists_lines
  refine ⟨lines, written, fun quality here => ?_⟩
  obtain ⟨issues, isFindings, shownFindings⟩ := shows_ quality here
  refine ⟨_, _, _, shownFindings, fun issue member => ?_⟩
  have reported := inspects.isReported here isFindings issue (List.mem_of_mem_take member)
  exact ⟨shownFindings.row_mem member, issueRow_eq issue, reported.isTableLine_iff⟩

theorem importingDirectory_row_is_table_line :
    ∃ report lines quality issue,
      (ofDirectory builtinStages (importingDirectory "a.js")).Inspects
        (directoryContext (importingDirectory "a.js")) builtinStages report
      ∧ Markdown.lines (.map report) = .ok lines
      ∧ report.lookup "code_quality" = some quality
      ∧ issueRow issue = "| info | unused_import | x | a.js:1 | never used |"
      ∧ issueRow issue ∈ lines ∧ IsTableLine (issueRow issue) (issueCells issue) := by
  obtain ⟨report, quality, items, inspects, here, inQuality, single⟩ :=
    exists_report_of_issues importingDirectory_shown.1
  obtain ⟨lines, written, shows_⟩ := finding_rows_are_table_lines_iff inspects
  obtain ⟨found, further, total, shownFindings, each⟩ := shows_ quality here
  obtain ⟨issue, rfl, seen⟩ := shownFindings.found_eq inQuality single
  simp only [Prod.mk.injEq] at seen
  obtain ⟨isRow, name, file⟩ := seen
  obtain ⟨inLines, -, iff⟩ := each issue (List.mem_singleton_self issue)
  refine ⟨report, lines, quality, issue, inspects, written, here, isRow, inLines, iff.mpr ?_⟩
  rw [name, file]
  exact ⟨⟨by decide, by decide⟩, by decide, by decide⟩

/-- A separator in the name of a file makes one cell more. -/
theorem separator_in_path_breaks_row :
    ∃ report lines quality issue,
      (ofDirectory builtinStages (importingDirectory "a|b.js")).Inspects
        (directoryContext (importingDirectory "a|b.js")) builtinStages report
      ∧ Markdown.lines (.map report) = .ok lines
      ∧ report.lookup "code_quality" = some quality
      ∧ (∃ found further total, ShowsFindings quality lines found further total ∧ issue ∈ found)
      ∧ issueRow issue = "| info | unused_import | x | a|b.js:1 | never used |"
      ∧ ∀ cells, cells.length = 5 → ¬ IsTableLine (issueRow issue) cells := by
  have listed : ((ofDirectory builtinStages (importingDirectory "a|b.js")).shown
      [.key "code_quality", .key "issues"]).map (·.items.map issueRow)
        = some ["| info | unused_import | x | a|b.js:1 | never used |"] := by decide +kernel
  obtain ⟨report, quality, items, inspects, here, inQuality, rows⟩ := exists_report_of_issues listed
  obtain ⟨lines, written, shows_⟩ := inspects.presentable.exists_lines
  obtain ⟨issues, -, shownFindings⟩ := shows_ quality here
  obtain ⟨issue, single, isRow⟩ := shownFindings.found_eq inQuality rows
  refine ⟨report, lines, quality, issue, inspects, written, here,
    ⟨_, _, _, shownFindings, by rw [single]; exact List.mem_singleton_self issue⟩, isRow, ?_⟩
  rintro cells five ⟨-, parts⟩
  have bars : "| info | unused_import | x | a|b.js:1 | never used |".toList.count '|' = 7 := by decide
  have counted := congrArg List.length parts
  rw [isRow, length_split, bars, List.length_append, List.length_cons, List.length_map, five] at counted
  cases counted

end Analysis

end Surveyor
