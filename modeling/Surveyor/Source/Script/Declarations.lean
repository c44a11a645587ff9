import Surveyor.Source.Braces
import Surveyor.Source.Parameters
import Surveyor.Source.Script.Imports

/-! # Classes, methods and functions of JavaScript and TypeScript -/

namespace Surveyor.Script

open Pattern

/-- Type arguments that stay before the body of a class. -/
def classTypeArguments : Pattern :=
  opt (blanks ++ char '<' ++ .greedy (fun c => c != '>' && c != '{') 0 ++ char '>')

/-- A class header up to its opening brace: export marker 1, name 2, parent 3, interfaces 4. -/
def classPattern : Pattern :=
  freshName ++ opt (.group 1 (lit "export" ++ blanks1 ++ opt (lit "default" ++ blanks1)))
    ++ opt (lit "abstract" ++ blanks1) ++ lit "class" ++ blanks1 ++ .group 2 name
    ++ classTypeArguments
    ++ opt (blanks1 ++ lit "extends" ++ blanks1
      ++ .group 3 (.greedy (fun c => isNameChar c || c == '.') 1) ++ classTypeArguments)
    ++ opt (blanks1 ++ lit "implements" ++ blanks1
      ++ .group 4 (.lazy (fun c => isNameChar c || c == '.' || c == ',' || c == '<' || c == '>'
        || isBlank c) 1))
    ++ blanks ++ char '{'

def methodModifiers : List String :=
  ["public", "private", "protected", "static", "async", "get", "set", "readonly", "override",
    "abstract"]

/-- At the start of a line or just after a brace or semicolon. -/
def statementStart : Pattern :=
  .where_ fun s i => i == 0 || s.hasBefore (fun c => c == '\n' || c == '{' || c == ';' || c == '}') i

/-- A method header on one line up to its opening brace: modifiers 1, name 2, parameters 3, return
type 4; the name without a privacy mark is group 5. -/
def methodPattern : Pattern :=
  statementStart ++ indent ++ .group 1 (modifiers methodModifiers) ++ opt (char '*' ++ blanks)
    ++ .group 2 (opt (char '#') ++ .group 5 name) ++ blanks
    ++ opt (char '<' ++ .greedy (fun c => c != '>' && c != '(' && c != '\n') 0 ++ char '>')
    ++ blanks ++ char '(' ++ .group 3 lineParameters ++ char ')'
    ++ opt (blanks ++ char ':' ++ blanks
      ++ .group 4 (.lazy (fun c => c != '{' && c != ';' && c != '=' && c != '\n') 1))
    ++ blanks ++ char '{'

/-- A function header up to its opening brace: export marker 1, `async` 2, name 3, parameters 4,
return type 5. -/
def functionPattern : Pattern :=
  freshName ++ opt (.group 1 (lit "export" ++ blanks1 ++ opt (lit "default" ++ blanks1)))
    ++ opt (.group 2 (lit "async" ++ blanks1)) ++ lit "function" ++ blanks ++ opt (char '*')
    ++ blanks ++ .group 3 name ++ blanks
    ++ opt (char '<' ++ .greedy (fun c => c != '>' && c != '(') 0 ++ char '>')
    ++ blanks ++ char '(' ++ .group 4 parameters ++ char ')'
    ++ opt (blanks ++ char ':' ++ blanks ++ .group 5 (.lazy (fun c => c != '{' && c != ';') 1))
    ++ blanks ++ char '{'

/-- A variable bound to an arrow function, up to the arrow: export marker 1, name 2, `async` 3,
parameters 4, return type 5, a single bare parameter 6. -/
def arrowPattern : Pattern :=
  freshName ++ opt (.group 1 (lit "export" ++ blanks1)) ++ words ["const", "let", "var"] ++ blanks1
    ++ .group 2 name ++ blanks
    ++ opt (char ':' ++ blanks ++ .lazy (fun c => c != '=' && c != ';' && c != '\n') 1)
    ++ char '=' ++ blanks ++ opt (.group 3 (lit "async" ++ blanks1))
    ++ (char '(' ++ .group 4 parameters ++ char ')'
        ++ opt (blanks ++ char ':' ++ blanks
          ++ .group 5 (.lazy (fun c => c != '=' && c != ';' && c != '{' && c != '\n') 1))
      <|> .group 6 name)
    ++ blanks ++ lit "=>"

/-- Words that look like a method header when a statement of their kind opens a block. -/
def statementKeywords : List String :=
  ["if", "for", "while", "switch", "catch", "function", "return", "with", "else", "do", "typeof",
    "new", "await"]

/-- Methods that a user interface framework calls by itself. -/
def lifecycleMethods : List String :=
  ["render", "componentDidMount", "componentDidUpdate", "componentWillUnmount", "mounted",
    "created", "updated", "destroyed", "beforeMount", "beforeUpdate", "beforeDestroy", "unmounted"]

/-- The method of a header found inside the class whose block opens at `opening`, unless the header
is a statement or lies deeper than the class body. -/
def methodOf? (t : Text) (index : LineIndex) (opening : Nat) (m : Match) : Option Method :=
  let written := m.groupText t 2
  let offset := m.groupStart 2
  if statementKeywords.contains written || depthBetween t opening m.start != 1 then none
  else
    let words := Text.words (m.groupText t 1)
    let isPrivate := Text.hasPrefix written "#"
    some {
      name := Text.stripLeft (· == '#') written
      visibility := if isPrivate then "private" else visibilityOf words
      params := parameterNames (m.groupText t 3)
      returnType := cleanType (m.group? t 4)
      isStatic := words.contains "static"
      isAsync := words.contains "async"
      accessor := some (words.contains "get", words.contains "set")
      isConstructor := written == "constructor"
      isMagic := lifecycleMethods.contains written
      line := index.lineOf offset
      offset := offset
      body := some (m.stop - 1) }

def methodsOf (t : Text) (index : LineIndex) (opening : Nat) : List Method :=
  (methodPattern.findAllFrom (Subject.upTo t (blockEnd t opening)) (opening + 1)).filterMap
    (methodOf? t index opening)

def classOf (t : Text) (index : LineIndex) (m : Match) : ClassDeclaration :=
  let opening := m.stop - 1
  let offset := m.groupStart 2
  { name := m.groupText t 2
    kind := "class"
    parent := m.group? t 3
    interfaces := commaNames (m.groupText t 4)
    methods := methodsOf t index opening
    properties := none
    isExported := some (m.hasGroup 1)
    line := index.lineOf offset
    offset := offset
    body := opening }

def functionOf (t : Text) (index : LineIndex) (m : Match) : FunctionDeclaration :=
  let offset := m.groupStart 3
  { name := m.groupText t 3
    params := parameterNames (m.groupText t 4)
    returnType := cleanType (m.group? t 5)
    form := .declaration
    isAsync := m.hasGroup 2
    isExported := m.hasGroup 1
    line := index.lineOf offset
    offset := offset
    body := some (m.stop - 1) }

def arrowOf (t : Text) (index : LineIndex) (m : Match) : FunctionDeclaration :=
  let offset := m.groupStart 2
  { name := m.groupText t 2
    params := parameterNames ((m.group? t 6).getD (m.groupText t 4))
    returnType := cleanType (m.group? t 5)
    form := .arrow
    isAsync := m.hasGroup 3
    isExported := m.hasGroup 1
    line := index.lineOf offset
    offset := offset
    body := none }

def classes (t : Text) (index : LineIndex) : List ClassDeclaration :=
  (classPattern.findAll (Subject.ofText t)).map (classOf t index)

/-- The functions outside of all classes, in the order of their names' offsets. -/
def functions (t : Text) (index : LineIndex) (classes : List ClassDeclaration) :
    List FunctionDeclaration :=
  let s := Subject.ofText t
  let scope := ClassScope.ofHeaders t (classes.map fun c => (c.offset : Int))
  let found := (functionPattern.findAll s).map (functionOf t index)
    ++ (arrowPattern.findAll s).map (arrowOf t index)
  (found.filter fun f => !scope.contains f.offset).mergeSort fun a b => decide (a.offset ≤ b.offset)

def languageOf (path : String) : String :=
  if Text.hasAnySuffix (lower path) [".ts", ".tsx"] then "typescript" else "javascript"

def outline (t : Text) (path language : String) (firstLine : Int) : Outline :=
  let index := LineIndex.ofText t firstLine
  let classes := classes t index
  { path := path
    language := language
    classes := classes
    functions := functions t index classes
    imports := imports t index
    exports := exports t index
    comments := Comment.findAll t index false
    isScriptSetup := none }

end Surveyor.Script
