import Surveyor.Inspection.Snapshot
import Surveyor.Pipeline.Stage
import Surveyor.Quality.CommentRuns
import Surveyor.Quality.Complexity
import Surveyor.Quality.Dependencies
import Surveyor.Quality.FunctionSize
import Surveyor.Quality.Unused

/-! # The stage that looks for unused and dead code -/

namespace Surveyor

/-- The findings of a project by category, and its complex files. -/
structure QualityFindings where
  unusedFunctions : List Issue
  unusedMethods : List Issue
  unusedClasses : List Issue
  unusedImports : List Issue
  unusedDependencies : List Issue
  largeFunctions : List Issue
  commentedCode : List Issue
  complexity : List ComplexityRecord
  hasDynamicLoading : Bool

structure QualityInput where
  contents : Contents
  obfuscated : List String
  outlines : Value
  dependencies : Value
  declared : DeclaredSymbols

namespace QualityInput

def ofSnapshot (snapshot : Value) : Except ValueFault QualityInput := do
  let contents ← Snapshot.contents snapshot
  let files ← Snapshot.files snapshot
  let outlines ← Snapshot.outlines snapshot
  let dependencies ← Snapshot.partField snapshot "tech_stack" "dependencies"
  return {
    contents := contents
    obfuscated := ← Snapshot.obfuscated files
    outlines := outlines
    dependencies := dependencies
    declared := ← DeclaredSymbols.ofOutlines outlines }

def referenceFiles (i : QualityInput) : Contents := i.contents.filled i.obfuscated

def commentFiles (i : QualityInput) : Contents :=
  i.referenceFiles.filter fun (path, _) => hasExtension path sourceExtensions

def references (i : QualityInput) (settings : Settings) : Except ValueFault References :=
  References.collect i.referenceFiles settings.scanCharLimit

end QualityInput

namespace QualityFindings

def ofInput (i : QualityInput) (references : References) (settings : Settings) :
    Except ValueFault QualityFindings := do
  let isDynamic := Surveyor.hasDynamicLoading i.contents
  return {
    unusedFunctions := ← unusedSymbols i.declared.functions references
    unusedMethods := ← unusedSymbols i.declared.methods references
    unusedClasses := ← Surveyor.unusedClasses i.declared.classes references (.bool isDynamic)
    unusedImports := ← Surveyor.unusedImports i.outlines i.contents
    unusedDependencies := ← Surveyor.unusedDependencies i.dependencies i.contents
    largeFunctions := ← Surveyor.largeFunctions i.outlines i.contents
    commentedCode := (← i.commentFiles.mapM fun (path, content) =>
      Surveyor.commentedCode path content settings.deadCommentMinLines).flatten
    complexity := ← ComplexityRecord.findAll i.contents settings.complexityThreshold i.obfuscated
      settings.scanCharLimit
    hasDynamicLoading := isDynamic }

/-- The categories with their findings, in the order in which they are listed. -/
def categories (f : QualityFindings) : List (String × List Issue) :=
  [("unused_functions", f.unusedFunctions), ("unused_methods", f.unusedMethods),
    ("unused_classes", f.unusedClasses), ("unused_imports", f.unusedImports),
    ("unused_dependencies", f.unusedDependencies), ("large_functions", f.largeFunctions),
    ("commented_code", f.commentedCode)]

/-- All findings by severity. -/
def issues (f : QualityFindings) : List Issue :=
  Issue.sortBySeverity (f.categories.flatMap (·.2))

def summary (f : QualityFindings) : Value :=
  .map ([("total_issues", Value.ofNat f.issues.length)]
    ++ f.categories.map (fun (category, found) => (category, Value.ofNat found.length))
    ++ [("has_dynamic_loading", Value.bool f.hasDynamicLoading),
      ("by_severity", Value.map (Issue.severities.map fun severity =>
        (severity, Value.ofNat (f.issues.countP (·.severity == severity)))))])

def toValue (f : QualityFindings) : Value :=
  .map ([("summary", f.summary), ("issues", Value.list (f.issues.map Issue.toValue)),
      ("complexity", Value.list (f.complexity.map ComplexityRecord.toValue))]
    ++ f.categories.map fun (category, found) => (category, Value.list (found.map Issue.toValue)))

def referenceSteps (i : QualityInput) (interval : Int) (names : Nat) : List Step :=
  reportSteps interval "code-quality:references" (i.referenceFiles.map (·.1))
    ++ [.log ⟨"stages.quality", .debug, "Reference set holds " ++ toString names ++ " names"⟩]

def commentSteps (i : QualityInput) (interval : Int) : List Step :=
  .checkpoint :: reportSteps interval "code-quality:comments" (i.commentFiles.map (·.1))

def lookUp (i : QualityInput) (settings : Settings) : Except ValueFault (References × List Step) := do
  let references ← i.references settings
  let interval ← settings.intervalFor i.referenceFiles.length
  return (references, referenceSteps i interval references.size)

def find (i : QualityInput) (references : References) (settings : Settings) :
    Except ValueFault (QualityFindings × List Step) := do
  let findings ← ofInput i references settings
  let interval ← settings.intervalFor i.commentFiles.length
  return (findings, commentSteps i interval)

def run (context : StageContext) (snapshot : Value) : StageRun :=
  let started := do
    let input ← QualityInput.ofSnapshot snapshot
    let (references, steps) ← lookUp input context.settings
    return (input, references, steps)
  match started with
  | .error fault => ⟨[], .failed (.ofFault fault)⟩
  | .ok (input, references, steps) =>
    match find input references context.settings with
    | .error fault => ⟨steps, .failed (.ofFault fault)⟩
    | .ok (findings, later) => ⟨steps ++ later, .delta [("code_quality", findings.toValue)]⟩

end QualityFindings

def Stage.qualityScan : Stage where
  name := "code-quality"
  reads := ["file_system", "_file_contents", "tech_stack", "code_structure"]
  provides := ["code_quality"]
  run := QualityFindings.run

end Surveyor
