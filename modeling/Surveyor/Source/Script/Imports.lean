import Surveyor.Source.Outline

/-! # Imports and exports of JavaScript and TypeScript -/

namespace Surveyor.Script

open Pattern

def isClauseChar (c : Char) : Bool :=
  isNameChar c || c == '*' || c == '{' || c == '}' || c == ',' || isBlank c

/-- `import … from "source"` at the start of a line: clause 1, source 2. -/
def importPattern : Pattern :=
  lineStart ++ indent ++ lit "import" ++ blanks1 ++ opt (lit "type" ++ blanks1)
    ++ opt (.group 1 (.lazy isClauseChar 1) ++ blanks1 ++ lit "from" ++ blanks1)
    ++ quote ++ .group 2 (.greedy (fun c => !isQuote c && c != '\n') 1) ++ quote

/-- `require("source")`, the source being group `source`. -/
def requireCall (source : Nat) : Pattern :=
  lit "require" ++ blanks ++ char '(' ++ blanks ++ quote
    ++ .group source (.greedy (!isQuote ·) 1) ++ quote ++ blanks ++ char ')'

/-- A variable bound to a required module: destructured names 1, single name 2, source 3. -/
def requireBindingPattern : Pattern :=
  wordEdge ++ words ["const", "let", "var"] ++ blanks1
    ++ (char '{' ++ .group 1 (.greedy (· != '}') 1) ++ char '}' <|> .group 2 name)
    ++ blanks ++ char '=' ++ blanks ++ requireCall 3

/-- A required module that is bound to nothing, at the start of a line: source 1. -/
def bareRequirePattern : Pattern := lineStart ++ indent ++ requireCall 1

/-- Names in braces: group 1. -/
def bracedNames : Pattern := char '{' ++ .group 1 (.greedy (· != '}') 0) ++ char '}'

def typeMarker : Pattern := textStart ++ blanks ++ lit "type" ++ blanks1

def asKeyword : Pattern := blanks1 ++ lit "as" ++ blanks1

/-- `* as name`: the name is group 1. -/
def namespaceImport : Pattern :=
  char '*' ++ blanks ++ lit "as" ++ blanks1 ++ .group 1 name

def localName (part : String) : String :=
  let t := Text.ofString part
  let bare :=
    match typeMarker.matchAt? (Subject.ofText t) 0 with
    | some m => t.slice m.stop t.size
    | none => part
  let names := asKeyword.splitBy (Text.ofString (Text.strip bare))
  Text.strip (names.getLast?.getD "")

/-- The local names and the namespace alias that a token outside of the braces adds. -/
def addToken (specifiers : List String) (localName : Option String) (token : String) :
    List String × Option String :=
  let t := Text.ofString token
  if t.isEmpty then (specifiers, localName)
  else
    match namespaceImport.matchAt? (Subject.ofText t) 0 with
    | some m =>
      let bound := m.groupText t 1
      (specifiers ++ [bound], some bound)
    | none => if t.all isNameChar then (token :: specifiers, localName) else (specifiers, localName)

/-- The local names that an import clause binds, and its namespace alias. -/
def clauseBindings (clause : String) : List String × Option String :=
  let t := Text.ofString clause
  let (named, rest) :=
    match bracedNames.find? (Subject.ofText t) with
    | some m =>
      (((Text.split ',' (m.groupText t 1)).map localName).filter (!·.isEmpty),
        t.slice 0 m.start ++ t.slice m.stop t.size)
    | none => ([], clause)
  ((Text.split ',' rest).map Text.strip).foldl
    (fun (specifiers, localName) token => addToken specifiers localName token) (named, none)

/-- The variable bound by one part of a destructuring pattern. -/
def destructuredName (part : String) : String :=
  let target := Text.strip (Text.splitOnce '=' part).1
  match (Text.splitOnce ':' target).2 with
  | some renamed => Text.strip renamed
  | none => target

def importOf (t : Text) (index : LineIndex) (m : Match) : Import :=
  let (specifiers, localName) := clauseBindings (m.groupText t 1)
  ⟨m.groupText t 2, specifiers, localName, .es6, index.lineOf m.start, m.start, m.stop⟩

def requireBindingOf (t : Text) (index : LineIndex) (m : Match) : Import :=
  let localName := m.group? t 2
  let specifiers :=
    match m.group? t 1 with
    | some names => ((Text.split ',' names).map destructuredName).filter (!·.isEmpty)
    | none => [localName.getD ""]
  ⟨m.groupText t 3, specifiers, localName, .commonJs, index.lineOf m.start, m.start, m.stop⟩

def bareRequireOf (t : Text) (index : LineIndex) (m : Match) : Import :=
  ⟨m.groupText t 1, [], none, .commonJs, index.lineOf m.start, m.start, m.stop⟩

def imports (t : Text) (index : LineIndex) : List Import :=
  let s := Subject.ofText t
  let found := (importPattern.findAll s).map (importOf t index)
    ++ (requireBindingPattern.findAll s).map (requireBindingOf t index)
    ++ (bareRequirePattern.findAll s).map (bareRequireOf t index)
  found.mergeSort fun a b => decide (a.start ≤ b.start)

/-! ## Exports -/

/-- At a place where no longer name or member access is going on. -/
def freshName : Pattern := notAfter fun c => isNameChar c || c == '.'

/-- `module.exports = …`: names in braces 1, a single name 2. -/
def moduleExportsPattern : Pattern :=
  wordEdge ++ lit "module.exports" ++ blanks ++ char '=' ++ blanks
    ++ (bracedNames <|> .group 2 name)

/-- `exports.name = …`: the name is group 1. -/
def exportsPropertyPattern : Pattern :=
  freshName ++ opt (lit "module.") ++ lit "exports." ++ .group 1 name ++ blanks
    ++ char '=' ++ notNext (· == '=')

/-- `export { … }`: the names are group 1. -/
def namedExportPattern : Pattern :=
  freshName ++ lit "export" ++ blanks1 ++ opt (lit "type" ++ blanks1) ++ bracedNames

/-- `export` before a declaration that is not the default one: the name is group 1. -/
def declaredExportPattern : Pattern :=
  freshName ++ lit "export" ++ blanks1 ++ .absent (lit "default" ++ wordEdge)
    ++ opt (lit "declare" ++ blanks1) ++ opt (lit "async" ++ blanks1)
    ++ anyOf [lit "const", lit "let", lit "var", lit "function" ++ blanks ++ opt (char '*'),
      lit "class", lit "interface", lit "type", lit "enum", lit "abstract" ++ blanks1 ++ lit "class"]
    ++ blanks1 ++ .group 1 name

/-- `export default …`: the name is group 1. -/
def defaultExportPattern : Pattern :=
  freshName ++ lit "export" ++ blanks1 ++ lit "default" ++ blanks1 ++ opt (lit "abstract" ++ blanks1)
    ++ opt (lit "class" ++ blanks1
      <|> opt (lit "async" ++ blanks1) ++ lit "function" ++ blanks ++ opt (char '*') ++ blanks)
    ++ .group 1 name

/-- The local name of one part of an export list. -/
def exportedName (part : String) : String :=
  Text.strip ((asKeyword.splitBy (Text.ofString (Text.strip part))).headD "")

/-- The exports that one match gives, empty names left out. -/
def exportsAt (index : LineIndex) (form : ExportForm) (m : Match) (names : List String) :
    List Export :=
  (names.filter (!·.isEmpty)).map fun exported => ⟨exported, form, index.lineOf m.start, m.start⟩

def exports (t : Text) (index : LineIndex) : List Export :=
  let s := Subject.ofText t
  let single := fun (m : Match) => [m.groupText t 1]
  let found :=
    ((moduleExportsPattern.findAll s).flatMap fun m =>
      exportsAt index .commonJs m <|
        match m.group? t 1 with
        | some names =>
          (Text.split ',' names).map fun part => Text.strip (Text.splitOnce ':' part).1
        | none => [m.groupText t 2])
    ++ ((exportsPropertyPattern.findAll s).flatMap fun m => exportsAt index .commonJs m (single m))
    ++ ((namedExportPattern.findAll s).flatMap fun m =>
      exportsAt index .es6 m ((Text.split ',' (m.groupText t 1)).map exportedName))
    ++ ((declaredExportPattern.findAll s).flatMap fun m => exportsAt index .es6 m (single m))
    ++ ((defaultExportPattern.findAll s).flatMap fun m => exportsAt index .default m (single m))
  found.mergeSort fun a b => decide (a.offset ≤ b.offset)

end Surveyor.Script
