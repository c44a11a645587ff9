import Surveyor.Source.Php
import Surveyor.Source.Script.Declarations

/-! # Outlining a file by its extension

The script blocks of a single-file component are outlined one by one, with line numbers that count from
the start of the file.
-/

namespace Surveyor.Component

open Pattern

/-- A script block: attributes 1, body 2. -/
def scriptPattern : Pattern :=
  caseless "<script" ++ wordEdge ++ .group 1 (.greedy (· != '>') 0) ++ char '>'
    ++ .group 2 (.lazy (fun _ => true) 0) ++ caseless "</script" ++ blanks ++ char '>'

def typedPattern : Pattern :=
  wordEdge ++ caseless "lang" ++ blanks ++ char '=' ++ blanks ++ quote
    ++ (caseless "ts" <|> caseless "tsx") ++ quote

def setupPattern : Pattern := wordEdge ++ lit "setup" ++ wordEdge

def blockOutline (t : Text) (path : String) (index : LineIndex) (m : Match) : Outline :=
  let typed := typedPattern.occursIn (Subject.ofString (m.groupText t 1))
  Script.outline (Text.ofString (m.groupText t 2)) path
    (if typed then "typescript" else "javascript") (index.lineOf (m.groupStart 2))

def outline (t : Text) (path : String) : Outline :=
  let found := scriptPattern.findAll (Subject.ofText t)
  let blocks := found.map (blockOutline t path (LineIndex.ofText t 1))
  { path := path
    language := "vue"
    classes := blocks.flatMap (·.classes)
    functions := blocks.flatMap (·.functions)
    imports := blocks.flatMap (·.imports)
    exports := blocks.flatMap (·.exports)
    comments := blocks.flatMap (·.comments)
    isScriptSetup := some (found.any fun m =>
      setupPattern.occursIn (Subject.ofString (m.groupText t 1))) }

end Surveyor.Component

namespace Surveyor

inductive SourceKind where
  | php
  | script
  | component
  deriving DecidableEq, Repr

namespace SourceKind

def ofExtension? (extension : String) : Option SourceKind :=
  let extension := lower extension
  if extension == ".php" then some .php
  else if [".js", ".jsx", ".mjs", ".cjs", ".ts", ".tsx"].contains extension then some .script
  else if extension == ".vue" then some .component
  else none

def outline (kind : SourceKind) (t : Text) (path : String) : Outline :=
  match kind with
  | .php => Php.outline t path
  | .script => Script.outline t path (Script.languageOf path) 1
  | .component => Component.outline t path

end SourceKind

end Surveyor
