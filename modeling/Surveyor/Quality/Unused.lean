import Surveyor.Quality.Declarations
import Surveyor.Quality.Issue
import Surveyor.Quality.References
import Surveyor.Value.Display

/-! # Unused functions, methods, classes and imports -/

namespace Surveyor

open Pattern

def dynamicLoadingPatterns : List Pattern :=
  [wordEdge ++ lit "new" ++ blanks1 ++ char '$' ++ opt (char '$') ++ word,
    char '$' ++ word ++ blanks ++ char '=' ++ blanks ++ lit "ucfirst" ++ blanks ++ char '(',
    wordEdge ++ lit "call_user_func" ++ opt (lit "_array") ++ blanks ++ char '(',
    wordEdge ++ lit "new" ++ blanks1 ++ opt (char '\\') ++ lit "ReflectionClass" ++ blanks
      ++ char '(']

def anyOccurs (patterns : List Pattern) (s : Subject) : Bool := patterns.any (·.occursIn s)

/-- Does a PHP file load classes or functions by computed names? -/
def hasDynamicLoading (contents : Contents) : Bool :=
  contents.any fun (path, content) =>
    isPhpPath path && anyOccurs dynamicLoadingPatterns (Subject.ofString content)

/-- Is the name of a symbol neither called from outside nor found anywhere in the project? -/
def isUnused (references : References) (name : Value) : Except ValueFault Bool := do
  match ← name.asKey with
  | .str s => return !isEntryPoint s && !references.contains s
  | _ => return true

def neverReferenced (name : Value) : String :=
  "\"" ++ name.display ++ "\" is declared but never referenced in the project"

def unusedSymbol (symbol : DeclaredSymbol) : Issue where
  name := symbol.name
  kind := "unused_" ++ symbol.kind.label
  severity := "warning"
  file := symbol.file
  line := symbol.line
  tag := "never called"
  description := neverReferenced symbol.name
  extra :=
    ("language", symbol.language)
      :: (if symbol.kind = .method then [("class_name", symbol.className)] else [])

def unreferenced (symbols : List DeclaredSymbol) (references : References) :
    Except ValueFault (List DeclaredSymbol) := do
  let marked ← symbols.mapM fun symbol => do return (symbol, ← isUnused references symbol.name)
  return (marked.filter (·.2)).map (·.1)

def unusedSymbols (symbols : List DeclaredSymbol) (references : References) :
    Except ValueFault (List Issue) := do
  return (← unreferenced symbols references).map unusedSymbol

def isPhp : Value → Bool
  | .str language => language == "php"
  | _ => false

/-- May a class of a language be loaded by a computed name, where such loading is marked? A mark that
is not given is passed on as it is. -/
def isLoadedBy (dynamicLoading language : Value) : Value :=
  if dynamicLoading.isGiven then .bool (isPhp language) else dynamicLoading

def unusedClass (dynamicLoading : Value) (symbol : DeclaredSymbol) : Issue :=
  let dynamic := isLoadedBy dynamicLoading symbol.language
  { name := symbol.name
    kind := "unused_class"
    severity := if dynamic.isGiven then "info" else "warning"
    file := symbol.file
    line := symbol.line
    tag := if dynamic.isGiven then "dynamic" else "never instantiated"
    description :=
      if dynamic.isGiven then
        "\"" ++ symbol.name.display ++ "\" has no direct reference; it is likely loaded dynamically "
          ++ "(runtime class instantiation detected)"
      else neverReferenced symbol.name
    extra := [("language", symbol.language), ("dynamic", dynamic)] }

/-- The classes that nothing refers to; where classes are loaded by computed names, those of PHP
are only worth a note. -/
def unusedClasses (symbols : List DeclaredSymbol) (references : References)
    (dynamicLoading : Value) : Except ValueFault (List Issue) := do
  return (← unreferenced symbols references).map (unusedClass dynamicLoading)

/-! ## Imports -/

/-- The name with no name character on either side. -/
def wholeName (name : String) : Pattern :=
  notAfter isNameChar ++ lit name ++ notNext isNameChar

/-- Does the name occur in the text at most once, that is only where it is imported? -/
def occursAtMostOnce (s : Subject) (specifier : String) : Bool :=
  ((wholeName specifier).findAll s).length ≤ 1

/-- The names an import binds: its specifiers, or its alias if it has none. -/
def boundNames (i : Value) : Except ValueFault (List Value) := do
  let specifiers ← i.membersUnder "specifiers"
  let alternative ← i.field "alias"
  return if specifiers.isEmpty && alternative.isGiven then [alternative] else specifiers

/-- The name, if it is given and no variable. -/
def checkedName? (name : Value) : Except ValueFault (Option String) := do
  if !name.isGiven then return none
  else
    let s ← name.textFor "startswith"
    return if Text.hasPrefix s "$" then none else some s

def unusedImport (path line source : Value) (specifier : String) : Issue where
  name := .str specifier
  kind := "unused_import"
  severity := "info"
  file := path
  line := line
  tag := "never used"
  description :=
    "Import \"" ++ specifier ++ "\" from \"" ++ source.display ++ "\" is never used"
  extra := [("source", source)]

/-- The names of one import that occur nowhere else in the text. -/
def unusedImportsIn (s : Subject) (path i : Value) : Except ValueFault (List Issue) := do
  let names ← (← boundNames i).mapM checkedName?
  let line ← i.field "line"
  let source ← i.field "source"
  return ((names.filterMap id).filter (occursAtMostOnce s)).map (unusedImport path line source)

def unusedImportsOf (contents : Contents) (path o : Value) : Except ValueFault (List Issue) := do
  match ← contents.filledAt? path with
  | none => return []
  | some content =>
    let s := Subject.ofString content
    return (← (← o.membersUnder "imports").mapM (unusedImportsIn s path)).flatten

def unusedImports (outlines : Value) (contents : Contents) : Except ValueFault (List Issue) := do
  return (← (← outlinesByPath outlines).mapM fun (path, o) => unusedImportsOf contents path o).flatten

end Surveyor
