import Std.Data.HashSet
import Surveyor.Quality.Contents
import Surveyor.Source.Script.Declarations

/-! # Names in use

`fileReferences` lists the names that a text mentions in a position of use: called, instantiated,
inherited from, named as a type, imported or exported. A function that is only passed around by its
name is in no such position. A name that is directly followed by a parenthesis is no call where it
is being declared.
-/

namespace Surveyor

namespace Reference

open Pattern

/-- An identifier that starts with a letter, underscore or dollar sign. -/
def identifier : Pattern := .one isNameStart ++ .greedy isNameChar 0

/-- A name before a parenthesis: group 1. -/
def callPattern : Pattern :=
  notAfter isNameChar ++ .group 1 identifier ++ blanks ++ char '('

/-- The keyword that makes the name after it a declared function. -/
def functionKeyword : Pattern :=
  wordEdge ++ lit "function" ++ blanks ++ opt (char '*') ++ blanks ++ opt (char '&') ++ blanks
    ++ textEnd

def keywordReach : Nat := 24

/-- A member or static call: the name is group 1. -/
def memberCallPattern : Pattern :=
  words ["->", "?->", ".", "::"] ++ blanks ++ .group 1 name ++ blanks ++ char '('

/-- An instantiation: the class is group 1. -/
def newPattern : Pattern :=
  wordEdge ++ lit "new" ++ blanks1 ++ opt (char '\\') ++ .star (word ++ char '\\')
    ++ .group 1 identifier

/-- A class before two colons: group 1. -/
def staticPattern : Pattern :=
  .group 1 (.one (fun c => c == '_' || c.isAlpha) ++ .greedy isWordChar 0) ++ blanks ++ lit "::"

def longName : Pattern :=
  opt (char '\\') ++ .greedy (fun c => isNameChar c || c == '.' || c == '\\') 1

/-- Names after an inheritance keyword: group 1. -/
def inheritancePattern : Pattern :=
  wordEdge ++ words ["extends", "implements", "instanceof"] ++ blanks1
    ++ .group 1 (longName ++ .star (blanks ++ char ',' ++ blanks ++ longName))

/-- A name after a colon: group 1. -/
def annotationPattern : Pattern :=
  char ':' ++ blanks ++ opt (char '?') ++ blanks
    ++ .group 1 (opt (char '\\') ++ .one (fun c => c == '_' || c.isAlpha) ++ .greedy isPathChar 0)

/-- A capitalised type before a variable: group 1. -/
def typedParameterPattern : Pattern :=
  wordEdge ++ .group 1 (.one Char.isUpper ++ .greedy isWordChar 0) ++ blanks1 ++ opt (char '&')
    ++ opt (lit "...") ++ char '$' ++ word

/-- A capitalised tag: group 1. -/
def componentTagPattern : Pattern :=
  char '<' ++ .group 1 (.one Char.isUpper ++ .greedy isNameChar 0)
    ++ .one fun c => isBlank c || c == '/' || c == '>' || c == '.'

def isKebabChar (c : Char) : Bool := c.isLower || c.isDigit

/-- A tag of several words joined by hyphens: group 1. -/
def kebabTagPattern : Pattern :=
  char '<' ++ .group 1 (.one Char.isLower ++ .greedy isKebabChar 0
      ++ plus (char '-' ++ .greedy isKebabChar 1))
    ++ .one fun c => isBlank c || c == '/' || c == '>'

/-- The clause of an import: group 1. -/
def importClausePattern : Pattern :=
  wordEdge ++ lit "import" ++ blanks1 ++ opt (lit "type" ++ blanks1)
    ++ .group 1 (.lazy Script.isClauseChar 1) ++ blanks1 ++ lit "from" ++ wordEdge

/-- Names in braces with the braces, or a single name. -/
def bindingTarget : Pattern := char '{' ++ .greedy (· != '}') 0 ++ char '}' <|> name

/-- What a required module is bound to: group 1. -/
def requireTargetPattern : Pattern :=
  wordEdge ++ words ["const", "let", "var"] ++ blanks1 ++ .group 1 bindingTarget ++ blanks
    ++ char '=' ++ blanks ++ lit "require" ++ wordEdge

/-- An export list: group 1. -/
def exportListPattern : Pattern :=
  wordEdge ++ lit "export" ++ blanks1 ++ opt (lit "type" ++ blanks1) ++ Script.bracedNames

/-- What a module exports as a whole: group 1. -/
def moduleExportsPattern : Pattern :=
  wordEdge ++ lit "module.exports" ++ blanks ++ char '=' ++ blanks ++ .group 1 bindingTarget

/-- An imported qualified name 1 and its alias 2. -/
def usePattern : Pattern :=
  wordEdge ++ lit "use" ++ blanks1 ++ opt (lit "function" ++ blanks1 <|> lit "const" ++ blanks1)
    ++ opt (char '\\') ++ .group 1 (.greedy isPathChar 1)
    ++ opt (blanks1 ++ lit "as" ++ blanks1 ++ .group 2 word)

def lastSegment (qualified : String) : String :=
  let chars := Text.dropRightWhile (· == '\\') (Text.stripChars isBlank qualified.toList)
  String.ofList (chars.reverse.takeWhile fun c => c != '\\' && c != '.').reverse

/-- A word with its first letter in upper case and the others in lower case. -/
def capitalize (word : List Char) : List Char :=
  match word with
  | [] => []
  | c :: rest => c.toUpper :: rest.map Char.toLower

/-- The class name of a tag of several words. -/
def componentName (tag : String) : String :=
  String.ofList ((Text.splitChars '-' tag.toList).flatMap capitalize)

def identifiers (stretch : String) : List String :=
  let t := Text.ofString stretch
  (identifier.findAll (Subject.ofText t)).map fun m => t.slice m.start m.stop

def declaredOffsets (t : Text) : List Nat :=
  (Script.methodPattern.findAll (Subject.ofText t)).map (·.groupStart 5)

def followsKeyword (t : Text) (offset : Nat) : Bool :=
  let start := offset - keywordReach
  (functionKeyword.findFrom? (Subject.upTo t offset) (offset - start + 1) start).isSome

def calledNames (t : Text) : List String :=
  let declared := Std.HashSet.ofList (declaredOffsets t)
  ((callPattern.findAll (Subject.ofText t)).filter fun m =>
      !declared.contains (m.groupStart 1) && !followsKeyword t (m.groupStart 1)).map
    (·.groupText t 1)

/-- The names recorded as group 1 of a pattern. -/
def namesOf (t : Text) (p : Pattern) : List String :=
  (p.findAll (Subject.ofText t)).map (·.groupText t 1)

end Reference

open Reference in
/-- The names a text uses, with repetitions. -/
def fileReferences (t : Text) : List String :=
  let found := calledNames t
    ++ ([memberCallPattern, newPattern, staticPattern, typedParameterPattern,
        componentTagPattern].flatMap (namesOf t))
    ++ (namesOf t inheritancePattern).flatMap (fun names => (Text.split ',' names).map lastSegment)
    ++ (namesOf t annotationPattern).map lastSegment
    ++ (namesOf t kebabTagPattern).map componentName
    ++ ([importClausePattern, requireTargetPattern, exportListPattern,
        Reference.moduleExportsPattern].flatMap fun p => (namesOf t p).flatMap identifiers)
    ++ ((usePattern.findAll (Subject.ofText t)).flatMap fun m =>
      lastSegment (m.groupText t 1) :: (m.group? t 2).toList)
  found.filter (!·.isEmpty)

abbrev References := Std.HashSet String

def scannedText (content : String) (limit : Option Int) : Text :=
  let t := Text.ofString content
  match limit with
  | some n => t.takeTo n
  | none => t

def References.ofFiles (files : Contents) (limit : Option Int) : References :=
  files.foldl (fun names file => names.insertMany (fileReferences (scannedText file.2 limit))) {}

/-- The names used in the given files, if there are any. -/
def References.collect (files : Contents) (limit : Except ValueFault (Option Int)) :
    Except ValueFault References := do
  if files.isEmpty then return {} else return ofFiles files (← limit)

end Surveyor
