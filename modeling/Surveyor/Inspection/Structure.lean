import Surveyor.Inspection.Snapshot
import Surveyor.Pipeline.Stage
import Surveyor.Source.Language

/-! # The stage that outlines the sources -/

namespace Surveyor

/-- A file that can be outlined: its extension is known and its content was read. -/
structure SourceFile where
  path : String
  kind : SourceKind
  content : String
  isObfuscated : Bool

namespace SourceFile

def ofFile? (contents : Contents) (file : Value) : Except ValueFault (Option SourceFile) := do
  let extension ← ((← file.field "extension").orElse (.str "")).textFor "lower"
  match SourceKind.ofExtension? extension with
  | none => return none
  | some kind =>
    match ← (← file.entry "path").asKey with
    | .str path =>
      match contents.lookup path with
      | none => return none
      | some content =>
        return some ⟨path, kind, content, (← file.field "obfuscated").isGiven⟩
    | _ => return none

def ofFiles (files : Value) (contents : Contents) : Except ValueFault (List SourceFile) := do
  return (← (← files.members).mapM (ofFile? contents)).filterMap id

def outline? (f : SourceFile) : Option Outline :=
  if f.isObfuscated || f.content.isEmpty then none
  else some (f.kind.outline (Text.ofString f.content) f.path)

end SourceFile

/-- The outlines of a project, and the files left out because they are obfuscated. -/
structure ProjectStructure where
  outlines : List Outline
  skipped : List String

namespace ProjectStructure

def ofSources (sources : List SourceFile) : ProjectStructure :=
  ⟨sources.filterMap SourceFile.outline?, (sources.filter (·.isObfuscated)).map (·.path)⟩

def total (s : ProjectStructure) (count : Outline → Nat) : Value :=
  .ofNat (sumOf count s.outlines)

def toValue (s : ProjectStructure) : Value :=
  .map [("total_classes", s.total (·.classes.length)),
    ("total_functions", s.total (·.functions.length)),
    ("total_methods", s.total fun o => sumOf (·.methods.length) o.classes),
    ("total_imports", s.total (·.imports.length)),
    ("total_exports", s.total (·.exports.length)),
    ("files", .list (s.outlines.map Outline.toValue)),
    ("skipped_files", .strings s.skipped)]

def skippedSteps (count : Nat) : List Step :=
  if count == 0 then []
  else
    [.log ⟨"stages.structure", .debug,
      "Skipped " ++ toString count ++ " obfuscated file(s) during structure scan"⟩]

def sourcesOf (snapshot : Value) : Except ValueFault (List SourceFile) := do
  let files ← Snapshot.files snapshot
  SourceFile.ofFiles files (← Snapshot.contents snapshot)

def run (context : StageContext) (snapshot : Value) : StageRun :=
  let found := do
    let sources ← sourcesOf snapshot
    return (sources, ← context.settings.intervalFor sources.length)
  match found with
  | .error fault => ⟨[], .failed (.ofFault fault)⟩
  | .ok (sources, interval) =>
    let result := ofSources sources
    ⟨reportSteps interval "code-structure:scan" (sources.map (·.path))
        ++ skippedSteps result.skipped.length,
      .delta [("code_structure", result.toValue)]⟩

end ProjectStructure

def Stage.structureScan : Stage where
  name := "code-structure"
  reads := ["file_system", "_file_contents"]
  provides := ["code_structure"]
  run := ProjectStructure.run

end Surveyor
