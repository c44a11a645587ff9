import Surveyor.Inspection.Snapshot
import Surveyor.Pipeline.Stage
import Surveyor.Stack.Frameworks
import Surveyor.Stack.LanguageLevel
import Surveyor.Stack.Languages

/-! # The stage that profiles the technology stack -/

namespace Surveyor

/-- What a manifest contributes: its entries if it can be read, and the path of one that cannot. -/
structure ManifestReading where
  entries : Option Entries
  unreadable : Option String

namespace ManifestReading

/-- Reads the manifest that lies closest to the root. -/
def ofContents (contents : Contents) (kind : ManifestKind) : ManifestReading :=
  match findManifest? contents kind.fileName with
  | none => ⟨none, none⟩
  | some (path, content) =>
    match kind.read? content with
    | some entries => ⟨some entries, none⟩
    | none => ⟨none, some path⟩

def steps (r : ManifestReading) : List Step :=
  (r.unreadable.map fun path =>
    Step.log ⟨"stages.tech_stack", .debug, "Skipping unparseable manifest " ++ path⟩).toList

end ManifestReading

structure Manifests where
  package : Option Entries
  composer : Option Entries
  tsconfig : Option Entries

def Manifests.ofContents (contents : Contents) : Manifests where
  package := (ManifestReading.ofContents contents .package).entries
  composer := (ManifestReading.ofContents contents .composer).entries
  tsconfig := (ManifestReading.ofContents contents .tsconfig).entries

/-- What the profile needs to know about the catalogued files. -/
structure FileSummary where
  obfuscated : List String
  names : List String
  languages : List LanguageShare

namespace FileSummary

def ofFiles (files : Value) : Except ValueFault FileSummary := do
  let obfuscated ← Snapshot.obfuscated files
  let names ← (← files.members).mapM fun file => do (← file.entry "name").asKey
  return ⟨obfuscated, names.filterMap Value.str?, ← LanguageShare.ofFiles files⟩

end FileSummary

structure StackProfile where
  languages : List LanguageShare
  frameworks : List Framework
  runtime : Entries
  packageManager : Option String
  dependencies : List Value
  devDependencies : List Value
  scripts : Entries
  configFiles : List String
  phpExtensions : List String
  ecmaScriptVersion : Option String
  phpVersion : Option String

namespace StackProfile

/-- The section of a manifest under a key; empty if it is no mapping. -/
def sectionOf (manifest : Option Entries) (key : String) : Entries :=
  ((manifest.getD []).lookup key).elim [] Value.entries

def given? (entries : Entries) (key : String) : Option Value :=
  (entries.lookup key).filter Value.isGiven

def compilerOptions (options : Entries) : Value :=
  .map [("target", (given? options "target").getD (.str "unknown")),
    ("module", (given? options "module").getD (.str "unknown")),
    ("strict", .bool (given? options "strict").isSome)]

def runtimeOf (m : Manifests) : Entries :=
  let options := (m.tsconfig.getD []).lookup "compilerOptions"
  ((given? (sectionOf m.package "engines") "node").map fun v => ("node", v)).toList
    ++ ((given? (sectionOf m.composer "require") "php").map fun v => ("php", v)).toList
    ++ match options with
      | some (.map options) => [("typescript", compilerOptions options)]
      | _ => []

def dependenciesOf (m : Manifests) (packageKey composerKey type : String) (skipPlatform : Bool) :
    List Value :=
  dependencyEntries (.map (sectionOf m.package packageKey)) (.str type) (.str "package.json") false
    ++ dependencyEntries (.map (sectionOf m.composer composerKey)) (.str type) (.str "composer.json")
      skipPlatform

/-- The frameworks that the declared packages and the names of files show, with the hint of the
user. -/
def frameworksOf (m : Manifests) (fileNames : List String) (hint : Option String) :
    List Framework :=
  let scriptPackages := (sectionOf m.package "dependencies").update (sectionOf m.package "devDependencies")
  let phpPackages := (sectionOf m.composer "require").update (sectionOf m.composer "require-dev")
  Framework.applyHint hint <| Framework.addIndicated fileNames <|
    Framework.ofDependencies scriptFrameworks scriptPackages "package.json"
      ++ Framework.ofDependencies phpFrameworks phpPackages "composer.json"

/-- The manifests that were read, then the files that show the use of a tool, each once. -/
def configFilesOf (m : Manifests) (fileNames : List String) : List String :=
  let manifests :=
    (if m.package.isSome then ["package.json"] else [])
      ++ (if m.composer.isSome then ["composer.json"] else [])
      ++ (if m.tsconfig.isSome then ["tsconfig.json"] else [])
  manifests ++ (configIndicators.map (·.1)).filter fun name =>
    fileNames.contains name && !manifests.contains name

def phpExtensionsOf (m : Manifests) : List String :=
  ((sectionOf m.composer "require").filter fun (name, _) => Text.hasPrefix name "ext-").map
    fun (name, _) => String.ofList (name.toList.drop 4)

def ecmaScriptExtensions : List String := [".js", ".jsx", ".mjs", ".cjs", ".ts", ".tsx"]

def sourcesOf (contents : Contents) (extensions skip : List String) : List Text :=
  (contents.sorted.filter fun (path, _) =>
    !skip.contains path && hasExtension path extensions).map fun (_, content) =>
      Text.ofString content

def ofProject (files : FileSummary) (contents : Contents) (m : Manifests)
    (hint : Option String) : StackProfile :=
  { languages := files.languages
    frameworks := frameworksOf m files.names hint
    runtime := runtimeOf m
    packageManager := m.package.map fun _ => Surveyor.packageManager files.names
    dependencies := dependenciesOf m "dependencies" "require" "production" true
    devDependencies := dependenciesOf m "devDependencies" "require-dev" "dev" false
    scripts := sectionOf m.package "scripts"
    configFiles := configFilesOf m files.names
    phpExtensions := phpExtensionsOf m
    ecmaScriptVersion := Surveyor.ecmaScriptVersion (sourcesOf contents ecmaScriptExtensions files.obfuscated)
    phpVersion := Surveyor.phpVersion (sourcesOf contents [".php"] files.obfuscated) }

def toValue (p : StackProfile) : Value :=
  .map [("languages", .list (p.languages.map LanguageShare.toValue)),
    ("frameworks", .list (p.frameworks.map Framework.toValue)), ("runtime", .map p.runtime),
    ("package_manager", .ofOption p.packageManager), ("dependencies", .list p.dependencies),
    ("dev_dependencies", .list p.devDependencies), ("scripts", .map p.scripts),
    ("config_files", .strings p.configFiles), ("php_extensions", .strings p.phpExtensions),
    ("ecmascript_version", .ofOption p.ecmaScriptVersion),
    ("php_version", .ofOption p.phpVersion)]

def readSnapshot (snapshot : Value) : Except ValueFault (FileSummary × Contents) := do
  let files ← Snapshot.files snapshot
  let contents ← Snapshot.contents snapshot
  return (← FileSummary.ofFiles files, contents)

def hintOf (framework : Value) : Except ValueFault (Option String) := do
  if framework.isGiven then return some (← framework.textFor "lower") else return none

def runWith (hint : Value) (files : FileSummary) (contents : Contents) : StageRun :=
  let manifestSteps := [ManifestKind.package, .composer, .tsconfig].flatMap fun kind =>
    (ManifestReading.ofContents contents kind).steps
  let steps := manifestSteps ++ [.checkpoint]
  match hintOf hint with
  | .error fault => ⟨steps, .failed (.ofFault fault)⟩
  | .ok hint =>
    let profile := ofProject files contents (.ofContents contents) hint
    ⟨steps, .delta [("tech_stack", profile.toValue)]⟩

def run (context : StageContext) (snapshot : Value) : StageRun :=
  match readSnapshot snapshot with
  | .error fault => ⟨[], .failed (.ofFault fault)⟩
  | .ok (files, contents) => runWith context.project.framework files contents

end StackProfile

def Stage.stackProfile : Stage where
  name := "tech-stack"
  reads := ["file_system", "_file_contents"]
  provides := ["tech_stack"]
  run := StackProfile.run

end Surveyor
