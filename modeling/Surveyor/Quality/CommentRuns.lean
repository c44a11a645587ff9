import Surveyor.Quality.Contents
import Surveyor.Quality.Issue
import Surveyor.Source.Lines

/-! # Runs of comment lines

A line is a comment line if it starts a line or block comment or lies in a block comment that an
earlier line left open. Consecutive comment lines form a run; blank lines and lines of code end it.
A run documents something if the last block opened in it is a documentation block.
-/

namespace Surveyor

/-- Consecutive comment lines; the first line of a text has the number zero. -/
structure CommentRun where
  start : Nat
  length : Nat
  documented : Bool
  deriving DecidableEq, Repr

namespace CommentRun

/-- What the text of a line, without blanks around it, says about comments. -/
inductive LineKind where
  /-- Opens a block comment: whether it is documentation, and whether it stays open. -/
  | block (documentation leftOpen : Bool)
  | comment
  | other
  deriving DecidableEq, Repr

def startsWith (start : String) (line : List Char) : Bool := start.toList.isPrefixOf line

def closesBlock (line : List Char) : Bool := Text.containsChars "*/".toList line

/-- A hash comment is neither an interpreter line nor an attribute. -/
def isHashComment (line : List Char) : Bool :=
  startsWith "#" line && !startsWith "#!" line && !startsWith "#[" line

def lineKind (hashComments : Bool) (line : List Char) : LineKind :=
  if startsWith "/*" line then
    .block ((startsWith "/**" line || startsWith "/*!" line) && !startsWith "/**/" line)
      (!closesBlock (line.drop 2))
  else if startsWith "//" line || (hashComments && isHashComment line) then .comment
  else .other

/-- The runs that are complete (latest first), the run going on, and whether a block is open. -/
structure Progress where
  complete : List CommentRun
  current : Option CommentRun
  inBlock : Bool

/-- The run going on, or a new one at the line `number`, with one more line. -/
def extend (current : Option CommentRun) (number : Nat) : CommentRun :=
  match current with
  | some run => { run with length := run.length + 1 }
  | none => ⟨number, 1, false⟩

/-- Takes in the line `number`, without blanks around it. -/
def step (hashComments : Bool) (p : Progress) (number : Nat) (line : List Char) : Progress :=
  if p.inBlock then
    { p with current := some (extend p.current number), inBlock := !closesBlock line }
  else
    match lineKind hashComments line with
    | .block documentation leftOpen =>
      { p with
        current := some { extend p.current number with documented := documentation }
        inBlock := leftOpen }
    | .comment => { p with current := some (extend p.current number) }
    | .other =>
      match p.current with
      | some run => { p with complete := run :: p.complete, current := none }
      | none => p

def advance (hashComments : Bool) : Progress → Nat → List (List Char) → Progress
  | p, _, [] => p
  | p, number, line :: rest =>
    advance hashComments (step hashComments p number (Text.stripChars isBlank line)) (number + 1)
      rest

def findAll (t : Text) (hashComments : Bool) : List CommentRun :=
  let p := advance hashComments ⟨[], none, false⟩ 0 (textLines t)
  (p.current.toList ++ p.complete).reverse

end CommentRun

def CommentRun.undocumented (path content : String) : List CommentRun :=
  (findAll (Text.ofString content) (isPhpPath path)).filter (!·.documented)

def CommentRun.issue (path : String) (run : CommentRun) : Issue :=
  let size := toString run.length
  let first := run.start + 1
  let last := run.start + run.length
  { name := .str (size ++ " commented lines")
    kind := "commented_code"
    severity := "info"
    file := .str path
    line := .ofNat first
    tag := size ++ " lines"
    description :=
      size ++ " consecutive commented lines (lines " ++ toString first ++ "-" ++ toString last
        ++ "). Consider removing dead code to reduce file size."
    extra := [("lines", .ofNat run.length), ("end_line", .ofNat last)] }

/-- The long runs of comment lines in a file that document nothing. How long they have to be is asked
only if there are any. -/
def commentedCode (path content : String) (minLines : Except ValueFault Int) :
    Except ValueFault (List Issue) := do
  match CommentRun.undocumented path content with
  | [] => return []
  | runs =>
    let least ← minLines
    return (runs.filter fun run => least ≤ run.length).map (CommentRun.issue path)

end Surveyor
