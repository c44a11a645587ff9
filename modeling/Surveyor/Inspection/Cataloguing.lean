import Surveyor.Catalog.Survey
import Surveyor.Pipeline.Stage

/-! # The stage that catalogues the files -/

namespace Surveyor

namespace Cataloguing

def phase : String := "file-system:scan"

/-- Reports on every file whose number is a multiple of the interval; how many files there are is not
known yet. -/
def visitSteps (interval : Int) (paths : List String) : List Step :=
  (paths.zipIdx 1).filterMap fun (path, index) =>
    if (index : Int) % max interval 1 == 0 then
      some (.report (.ofNat index) .null (.str path) (.str phase))
    else none

def steps (interval : Int) (catalog : Catalog) : List Step :=
  let count := Value.ofNat catalog.files.length
  visitSteps interval (catalog.visited.map (·.path))
    ++ [.report count count (.str "done") (.str phase)]

/-- The published catalogue, and the contents for later stages. -/
def delta (catalog : Catalog) : Entries :=
  [("file_system", catalog.toValue),
    ("_file_contents", .map (catalog.contents.map fun (path, content) => (path, .str content)))]

def failure : CatalogError → StageResult
  | e@(.missingRoot _) | e@(.notADirectory _) => .refused e.message
  | .nameTooLong => .failed ⟨"OSError", "File name too long"⟩
  | e@(.daysOutOfRange _) => .failed ⟨"OverflowError", e.message⟩
  | e@(.undated _ _) => .failed ⟨"ValueError", e.message⟩
  | .noSpan fault => .failed (.ofFault fault)

/-- The files that were met before the survey failed. -/
def metBefore : CatalogError → List String
  | .undated _ before => before
  | _ => []

def preparation (context : StageContext) : Except ValueFault (Int × List String) := do
  let interval ← context.settings.progressInterval
  let ofProject ← context.project.excludedFolders.members
  let ofSettings ← context.settings.excludePaths.members
  return (interval, exclusionPatterns ((ofProject ++ ofSettings).map Value.display))

def run (context : StageContext) : StageRun :=
  let settings := context.settings
  match preparation context with
  | .error fault => ⟨[], .failed (.ofFault fault)⟩
  | .ok (interval, patterns) =>
    match Catalog.survey context.tree [] context.project.rootPath ⟨patterns, settings.maxFileSize⟩
        (.int settings.recentDays) context.now with
    | .ok catalog => ⟨steps interval catalog, .delta (delta catalog)⟩
    | .error e => ⟨visitSteps interval (metBefore e), failure e⟩

end Cataloguing

def Stage.cataloguing : Stage where
  name := "file-system"
  reads := []
  provides := ["file_system", "_file_contents"]
  run context _ := Cataloguing.run context

end Surveyor
