import Surveyor.Quality.Contents
import Surveyor.Quality.Declarations
import Surveyor.Quality.Issue
import Surveyor.Quality.Unused

/-! # Unused dependencies -/

namespace Surveyor

open Pattern

structure Dependency where
  name : String
  version : Value
  source : Value

/-- Manifests and lock files; naming a package in one of them is no use of it. -/
def manifestNames : List String :=
  ["package.json", "package-lock.json", "composer.json", "composer.lock", "yarn.lock",
    "pnpm-lock.yaml", "tsconfig.json"]

/-- Runtimes that are used without ever being imported. -/
def implicitRuntimes : List String := ["php", "node"]

/-- Families of tools that are used without ever being imported. -/
def implicitFamilies : List String :=
  ["typescript", "nodemon", "@types/", "eslint", "prettier", "jest", "mocha",
    "webpack", "vite", "babel", "autoprefixer", "postcss", "sass", "less", "dotenv"]

/-- Is the package a member of the family? A family that ends in a slash is a scope. -/
def inFamily (name family : String) : Bool :=
  if Text.hasSuffix family "/" then Text.hasPrefix name family
  else
    name == family || Text.hasPrefix name (family ++ "-") || Text.hasPrefix name ("@" ++ family ++ "/")

/-- Runtimes match exactly, tools by their family. -/
def isImplicitDependency (name : String) : Bool :=
  implicitRuntimes.contains name || implicitFamilies.any (inFamily name)

def isAnyQuote (c : Char) : Bool := isQuote c || c.toNat == 0x60

def importPatterns (name : String) : List Pattern :=
  let anyQuote := Pattern.one isAnyQuote
  [anyQuote ++ lit name ++ .one fun c => isAnyQuote c || c == '/',
    wordEdge ++ lit "require" ++ blanks ++ char '(' ++ blanks ++ anyQuote ++ lit name,
    wordEdge ++ lit "from" ++ blanks1 ++ anyQuote ++ lit name,
    wordEdge ++ lit "import" ++ blanks ++ char '(' ++ blanks ++ anyQuote ++ lit name]

/-- Ways of using a package by the namespaces of its vendor, in any case. -/
def namespacePatterns (name : String) : List Pattern :=
  match Text.splitOnce '/' name with
  | (vendor, some package) =>
    if Text.hasPrefix name "@" then []
    else
      let vendorName := caseless (Text.removeChar '-' vendor)
      let packageName := caseless (Text.removeChar '-' package)
      [wordEdge ++ caseless "use" ++ blanks1 ++ opt (char '\\') ++ vendorName ++ char '\\',
        wordEdge ++ vendorName ++ char '\\' ++ packageName ++ wordEdge]
  | (_, none) => []

def dependencyPatterns (name : String) : List Pattern :=
  importPatterns name ++ namespacePatterns name

/-- The dependency that an entry declares, if it is one whose use can be seen: a production
dependency that is not used implicitly. -/
def Dependency.ofEntry? (entry : Value) : Except ValueFault (Option Dependency) := do
  let name ← entry.field "name"
  let type ← entry.fieldOr "type" (.str "production")
  if !name.isGiven || type.str? != some "production" then return none
  else
    let name ← name.textFor "startswith"
    if isImplicitDependency name then return none
    else return some ⟨name, ← entry.field "version", ← entry.field "source"⟩

def unusedDependency (d : Dependency) : Issue where
  name := .str d.name
  kind := "unused_dependency"
  severity := "info"
  file := d.source
  line := .null
  tag := "not imported"
  description :=
    "Dependency \"" ++ d.name ++ "\" is listed in " ++ (d.source.orElse (.str "the manifest")).display
      ++ " but not imported in code"
  extra := [("version", d.version), ("source", d.source)]

def isImported (sources : List Subject) (d : Dependency) : Bool :=
  sources.any (anyOccurs (dependencyPatterns d.name))

def importingSources (contents : Contents) : List Subject :=
  ((contents.filled []).filter fun (path, _) =>
    !manifestNames.contains (Text.baseName path)).map fun (_, content) => Subject.ofString content

def unusedDependencies (dependencies : Value) (contents : Contents) :
    Except ValueFault (List Issue) := do
  let sources := importingSources contents
  let visible ← (← dependencies.members).mapM Dependency.ofEntry?
  return ((visible.filterMap id).filter fun d => !isImported sources d).map unusedDependency

end Surveyor
