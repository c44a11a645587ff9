import Surveyor.Value.Display
import Surveyor.Value.Order

/-! # The report as Markdown

A report is shown section by section; a section whose part of the report is missing or empty is left
out. A field that is missing shows as nothing.
-/

namespace Surveyor

inductive MarkdownError where
  /-- There are findings, but not their number. -/
  | noTotal
  /-- What should be a sequence or a number is neither. -/
  | notASequence
  /-- What should be a mapping is none. -/
  | notAMapping
  deriving DecidableEq, Repr

namespace Markdown

def maxIssues : Nat := 25

def maxComplexFiles : Nat := 15

/-! ## Fields -/

/-- A field as text; nothing if it is missing. -/
def shown (v : Value) (key : String) : String := ((v.get? key).map Value.display).getD ""

def isGiven (v : Value) (key : String) : Bool := (v.get key).isGiven

/-- A part of a report, empty unless it is given. -/
def part (v : Value) (key : String) : Value := if isGiven v key then v.get key else .map []

def members : Value → Except MarkdownError (List Value)
  | .list items | .tuple items | .set items => .ok items
  | .map entries => .ok (entries.map fun (key, _) => .str key)
  | .str s => .ok (s.toList.map fun c => .str (String.singleton c))
  | _ => .error .notASequence

def fieldMembers (v : Value) (key : String) : Except MarkdownError (List Value) :=
  match v.get? key with
  | some field => members field
  | none => .ok []

/-- The members of a field; none if it is missing or empty. -/
def givenMembers (v : Value) (key : String) : Except MarkdownError (List Value) :=
  if isGiven v key then members (v.get key) else .ok []

/-- A part of a report that must be a mapping if it is given. -/
def mappingPart (v : Value) (key : String) : Except MarkdownError Value :=
  match part v key with
  | .map entries => .ok (.map entries)
  | _ => .error .notAMapping

def row (cells : List String) : String := "| " ++ Text.join " | " cells ++ " |"

def givenItem (v : Value) (key label : String) : List String :=
  if isGiven v key then ["- " ++ label ++ ": " ++ shown v key] else []

/-! ## Sections -/

def header (record score : Value) : List String :=
  ["# Code inspection: " ++ shown record "project_name", "",
    "- Root: \x60" ++ shown record "root_path" ++ "\x60",
    "- Analyzed at: " ++ shown record "analyzed_at",
    "- Duration: " ++ shown record "duration_ms" ++ " ms"]
    ++ (if score.isGiven then
        ["- Score: **" ++ shown score "score" ++ " / 10** (" ++ shown score "message" ++ ")"]
      else [])
    ++ [""]

def stageRow (layer : Value) : String :=
  let error := if isGiven layer "error" then ": " ++ shown layer "error" else ""
  row [shown layer "name", shown layer "status" ++ error, shown layer "duration_ms"]

def stages (layers : List Value) : List String :=
  ["## Stages", "", "| Stage | Status | Duration (ms) |", "|-------|--------|---------------|"]
    ++ layers.map stageRow ++ [""]

def files (fileSystem : Value) : List String :=
  if fileSystem.isGiven then
    ["## Files", "", "- Files: " ++ shown fileSystem "total_files",
      "- Lines: " ++ shown fileSystem "total_lines",
      "- Folders: " ++ shown fileSystem "total_folders"]
      ++ givenItem fileSystem "minified_skipped" "Minified files skipped" ++ [""]
  else []

def languageRow (language : Value) : String :=
  row (["name", "extension", "files", "lines"].map (shown language))

def languages (found : List Value) : List String :=
  if found.isEmpty then []
  else
    ["| Language | Extension | Files | Lines |", "|----------|-----------|-------|-------|"]
      ++ found.map languageRow ++ [""]

def frameworkNames : List Value → Except MarkdownError (List String)
  | [] => .ok []
  | .map entries :: rest => do
    let names ← frameworkNames rest
    return if isGiven (.map entries) "name" then shown (.map entries) "name" :: names else names
  | _ :: _ => .error .notAMapping

def stack (profile : Value) (frameworks : List String) : Except MarkdownError (List String) := do
  if !profile.isGiven then return []
  let found ← givenMembers profile "languages"
  let production ← fieldMembers profile "dependencies"
  let development ← fieldMembers profile "dev_dependencies"
  return ["## Technology stack", ""] ++ languages found
    ++ (if frameworks.isEmpty then [] else ["- Frameworks: " ++ Text.join ", " frameworks])
    ++ givenItem profile "package_manager" "Package manager"
    ++ givenItem profile "ecmascript_version" "ECMAScript"
    ++ givenItem profile "php_version" "PHP"
    ++ ["- Dependencies: " ++ toString production.length ++ " production, "
        ++ toString development.length ++ " dev", ""]

def codeStructure (s : Value) : List String :=
  if s.isGiven then
    ["## Structure", "", "- Classes: " ++ shown s "total_classes",
      "- Functions: " ++ shown s "total_functions", "- Methods: " ++ shown s "total_methods",
      "- Imports: " ++ shown s "total_imports", "- Exports: " ++ shown s "total_exports", ""]
  else []

/-- Where a finding is: its file, or a hyphen, and its line if it has one. -/
def location (issue : Value) : String :=
  let file := if isGiven issue "file" then shown issue "file" else "-"
  file ++ (if isGiven issue "line" then ":" ++ shown issue "line" else "")

def issueRow (issue : Value) : String :=
  row [shown issue "severity", shown issue "kind", shown issue "name", location issue,
    shown issue "tag"]

def less (total : Value) (count : Nat) : Value :=
  match total with
  | .float x => .float (x - Binary64.ofInt count)
  | other => .int (other.asInt - count)

def unlisted (summary : Value) (listed : Nat) : Except MarkdownError (List String) :=
  match summary.get? "total_issues" with
  | none => .error .noTotal
  | some total =>
    match total with
    | .bool _ | .int _ | .float _ =>
      if Value.compareNumbers? total (.int listed) == some .gt then
        .ok ["", "_" ++ (less total listed).display ++ " more issue(s) in the JSON report._"]
      else .ok []
    | _ => .error .notASequence

def issues (found : List Value) (summary : Value) : Except MarkdownError (List String) :=
  if found.isEmpty then .ok ["No issues found."]
  else do
    let dynamic :=
      if isGiven summary "has_dynamic_loading" then " (dynamic class loading detected)" else ""
    let rest ← unlisted summary found.length
    return ["Total: " ++ shown summary "total_issues" ++ dynamic, "",
        "| Severity | Kind | Name | Location | Note |", "|----------|------|------|----------|------|"]
      ++ found.map issueRow ++ rest

def complexityRow (record : Value) : String :=
  row (["file", "complexity", "lines", "complexity_per_line"].map (shown record))

def complexFiles (records : List Value) : List String :=
  if records.isEmpty then []
  else
    ["## Complexity", "", "| File | Complexity | Lines | Per line |",
      "|------|------------|-------|----------|"]
      ++ records.map complexityRow ++ [""]

def quality (q : Value) (found complex : List Value) : Except MarkdownError (List String) := do
  if !q.isGiven then return []
  return ["## Issues", ""] ++ (← issues found (part q "summary")) ++ [""] ++ complexFiles complex

def entryPoints (locations : Value) : Except MarkdownError (List String) := do
  let found ← givenMembers locations "entry_points"
  if found.isEmpty then return []
  return ["## Entry points", ""]
    ++ found.map (fun e => "- \x60" ++ shown e "path" ++ "\x60 (" ++ shown e "hint" ++ ")") ++ [""]

def fileTree (fileSystem : Value) : List String :=
  if isGiven fileSystem "file_tree" then
    ["## File tree", "", "\x60\x60\x60", shown fileSystem "file_tree", "\x60\x60\x60"]
  else []

/-- The lines of a report. What the sections list is gathered before the first one is written. -/
def lines (report : Value) : Except MarkdownError (List String) := do
  let .map _ := report | .error .notAMapping
  let profile ← mappingPart report "tech_stack"
  let frameworks ← frameworkNames (← givenMembers profile "frameworks")
  let q ← mappingPart report "code_quality"
  let found := (← givenMembers q "issues").take maxIssues
  let complex := (← givenMembers q "complexity").take maxComplexFiles
  let record := part report "meta"
  let fileSystem := part report "file_system"
  let layers ← fieldMembers record "layers_executed"
  let stackLines ← stack profile frameworks
  let qualityLines ← quality q found complex
  return header record (report.get "code_score") ++ stages layers ++ files fileSystem
    ++ stackLines ++ codeStructure (part report "code_structure") ++ qualityLines
    ++ (← entryPoints (part report "key_locations")) ++ fileTree fileSystem

/-- The report as one text that ends in a newline and no other blanks. -/
def document (report : Value) : Except MarkdownError String := do
  return Text.stripRight isBlank (Text.join "\n" (← lines report)) ++ "\n"

end Markdown

end Surveyor
