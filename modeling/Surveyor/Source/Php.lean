import Surveyor.Source.Braces
import Surveyor.Source.Outline
import Surveyor.Source.Parameters

/-! # Outlines of PHP files -/

namespace Surveyor.Php

open Pattern

/-- `use Some\Name as Alias;` at the start of a line: source 1, alias 2. -/
def usePattern : Pattern :=
  lineStart ++ lit "use" ++ blanks1 ++ opt (lit "function" ++ blanks1 <|> lit "const" ++ blanks1)
    ++ opt (char '\\') ++ .group 1 (.greedy isPathChar 1)
    ++ opt (blanks1 ++ lit "as" ++ blanks1 ++ .group 2 word) ++ blanks ++ char ';'

/-- A required or included file: quoted path 1, variable 2. -/
def requirePattern : Pattern :=
  wordEdge ++ words ["require", "include"] ++ opt (lit "_once") ++ blanks ++ opt (char '(') ++ blanks
    ++ (quote ++ .group 1 (.greedy (!isQuote ·) 1) ++ quote <|> .group 2 (char '$' ++ word))

def qualifiedName : Pattern := opt (char '\\') ++ .greedy isPathChar 1

def qualifiedNames : Pattern :=
  qualifiedName ++ .star (blanks ++ char ',' ++ blanks ++ qualifiedName)

/-- The start of a line, of the code, or of what follows a semicolon or closing brace. -/
def statementStart : Pattern :=
  lineStart ++ indent <|> (lit "<?php" <|> .one fun c => c == ';' || c == '}') ++ indent

/-- A class, interface or trait header up to its opening brace: kind 1, name 2, parents 3,
interfaces 4. -/
def classPattern : Pattern :=
  statementStart ++ modifiers ["abstract", "final", "readonly"]
    ++ .group 1 (words ["class", "interface", "trait"]) ++ blanks1 ++ .group 2 word
    ++ opt (blanks1 ++ lit "extends" ++ blanks1 ++ .group 3 qualifiedNames)
    ++ opt (blanks1 ++ lit "implements" ++ blanks1 ++ .group 4 qualifiedNames)
    ++ blanks ++ char '{'

/-- A type, perhaps optional or a union. -/
def typeName : Pattern :=
  opt (char '?') ++ .greedy (fun c => isPathChar c || c == '|') 1

/-- The name, parameters and return type of a function from the keyword on, as the groups `first`,
`first + 1` and `first + 2`. -/
def signature (first : Nat) : Pattern :=
  lit "function" ++ blanks1 ++ opt (char '&') ++ .group first word ++ blanks ++ char '('
    ++ .group (first + 1) parameters ++ char ')'
    ++ opt (blanks ++ char ':' ++ blanks ++ .group (first + 2) typeName) ++ blanks

/-- A method header up to its brace or semicolon: modifiers 1, name 2, parameters 3, return type
4. -/
def methodPattern : Pattern :=
  .group 1 (modifiers ["public", "protected", "private", "static", "abstract", "final"])
    ++ signature 2 ++ .one fun c => c == '{' || c == ';'

/-- A property at the start of a line: modifiers 1, type 2, name 3. -/
def propertyPattern : Pattern :=
  lineStart ++ indent
    ++ .group 1 (plus (words ["public", "protected", "private", "static", "readonly", "var"]
      ++ blanks1))
    ++ opt (.group 2 typeName ++ blanks1) ++ char '$' ++ .group 3 word

/-- A function header up to its opening brace: name 1, parameters 2, return type 3. -/
def functionPattern : Pattern := statementStart ++ signature 1 ++ char '{'

def plainNames (names : String) : List String :=
  (commaNames names).map (Text.stripLeft (· == '\\'))

def useOf (t : Text) (index : LineIndex) (m : Match) : Import :=
  let source := m.groupText t 1
  let localName := m.group? t 2
  ⟨source, [localName.getD (Text.afterLast '\\' source)], localName, .use, index.lineOf m.start, m.start,
    m.stop⟩

def requireOf (t : Text) (index : LineIndex) (m : Match) : Import :=
  let source := (m.group? t 1).getD (m.groupText t 2)
  ⟨source, [], none, .require, index.lineOf m.start, m.start, m.stop⟩

/-- Imported names first, then required files. -/
def imports (t : Text) (index : LineIndex) : List Import :=
  let s := Subject.ofText t
  (usePattern.findAll s).map (useOf t index) ++ (requirePattern.findAll s).map (requireOf t index)

/-- Is the match directly in the body of the class whose block opens at `opening`? -/
def inBody (t : Text) (opening : Nat) (m : Match) : Bool := depthBetween t opening m.start == 1

def methodOf (t : Text) (index : LineIndex) (m : Match) : Method :=
  let words := Text.words (m.groupText t 1)
  let name := m.groupText t 2
  let offset := m.groupStart 2
  { name := name
    visibility := visibilityOf words
    params := parameterNames (m.groupText t 3)
    returnType := m.group? t 4
    isStatic := words.contains "static"
    isAsync := false
    accessor := none
    isConstructor := name == "__construct"
    isMagic := Text.hasPrefix name "__"
    line := index.lineOf offset
    offset := offset
    body := if t[m.stop - 1]? == some '{' then some (m.stop - 1) else none }

def methodsOf (t : Text) (index : LineIndex) (opening : Nat) : List Method :=
  ((methodPattern.findAllFrom (Subject.upTo t (blockEnd t opening)) opening).filter
    (inBody t opening)).map (methodOf t index)

def propertyOf (t : Text) (m : Match) : Property :=
  let words := Text.words (m.groupText t 1)
  ⟨m.groupText t 3, visibilityOf words, m.group? t 2, words.contains "static"⟩

def propertiesOf (t : Text) (opening : Nat) : List Property :=
  ((propertyPattern.findAllFrom (Subject.upTo t (blockEnd t opening)) opening).filter
    (inBody t opening)).map (propertyOf t)

def classOf (t : Text) (index : LineIndex) (m : Match) : ClassDeclaration :=
  let opening := m.stop - 1
  let offset := m.groupStart 1
  { name := m.groupText t 2
    kind := m.groupText t 1
    parent := (m.group? t 3).bind fun names => (plainNames names).head?
    interfaces := plainNames (m.groupText t 4)
    methods := methodsOf t index opening
    properties := some (propertiesOf t opening)
    isExported := none
    line := index.lineOf offset
    offset := offset
    body := opening }

def classes (t : Text) (index : LineIndex) : List ClassDeclaration :=
  (classPattern.findAll (Subject.ofText t)).map (classOf t index)

def functionOf (t : Text) (index : LineIndex) (m : Match) : FunctionDeclaration :=
  let offset := m.groupStart 1
  { name := m.groupText t 1
    params := parameterNames (m.groupText t 2)
    returnType := m.group? t 3
    form := .declaration
    isAsync := false
    isExported := false
    line := index.lineOf offset
    offset := offset
    body := some (m.stop - 1) }

def functions (t : Text) (index : LineIndex) (classes : List ClassDeclaration) :
    List FunctionDeclaration :=
  let scope := ClassScope.ofHeaders t (classes.map fun c => (c.offset : Int))
  ((functionPattern.findAll (Subject.ofText t)).map (functionOf t index)).filter fun f =>
    !scope.contains f.offset

def outline (t : Text) (path : String) : Outline :=
  let index := LineIndex.ofText t 1
  let classes := classes t index
  { path := path
    language := "php"
    classes := classes
    functions := functions t index classes
    imports := imports t index
    exports := []
    comments := Comment.findAll t index true
    isScriptSetup := none }

end Surveyor.Php
