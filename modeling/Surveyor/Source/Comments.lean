import Surveyor.Pattern.Vocabulary
import Surveyor.Source.Lines

/-! # Comments of a source text

Block comments, line comments and, where the language has them, hash comments are looked for
independently; a line or hash comment that starts inside a block comment is dropped.
-/

namespace Surveyor

inductive CommentStyle where
  | line
  | block
  deriving DecidableEq, Repr

def CommentStyle.label : CommentStyle → String
  | .line => "line"
  | .block => "block"

structure Comment where
  text : String
  line : Int
  style : CommentStyle
  start : Nat
  stop : Nat

namespace Comment

open Pattern

/-- Two slashes that belong to no address, path or string, and the rest of the line. -/
def linePattern : Pattern :=
  notAfter (fun c => c == ':' || c == '\\' || isQuote c)
    ++ lit "//" ++ .group 1 (.greedy (· != '\n') 0)

def blockPattern : Pattern := lit "/*" ++ .group 1 (.lazy (fun _ => true) 0) ++ lit "*/"

/-- A hash that is part of no name, string or attribute, and the rest of the line. -/
def hashPattern : Pattern :=
  notAfter (fun c => isNameChar c || isQuote c)
    ++ char '#' ++ notNext (· == '[') ++ .group 1 (.greedy (· != '\n') 0)

/-- The first line of a block comment without its decoration. -/
def blockSummary (body : String) : String :=
  let inner := Text.stripWhere (fun c => "*! \t\r\n".toList.contains c) body
  Text.stripWhere (fun c => c == ' ' || c == '*' || c == '\t') (Text.firstLine inner)

def ofBlock (t : Text) (index : LineIndex) (m : Match) : Comment :=
  ⟨blockSummary (m.groupText t 1), index.lineOf m.start, .block, m.start, m.stop⟩

/-- A line comment, unless it is empty or a row of slashes. -/
def ofLine? (t : Text) (index : LineIndex) (m : Match) : Option Comment :=
  let text := Text.strip (m.groupText t 1)
  if text.isEmpty || Text.hasPrefix text "/" then none
  else some ⟨text, index.lineOf m.start, .line, m.start, m.stop⟩

def findAll (t : Text) (index : LineIndex) (hashComments : Bool) : List Comment :=
  let s := Subject.ofText t
  let blocks := (blockPattern.findAll s).map (ofBlock t index)
  let outside := fun (m : Match) => !blocks.any fun b => b.start ≤ m.start && m.start < b.stop
  let patterns := if hashComments then [linePattern, hashPattern] else [linePattern]
  let lines := patterns.flatMap fun p =>
    ((p.findAll s).filter outside).filterMap (ofLine? t index)
  (blocks ++ lines).mergeSort fun a b => decide (a.start ≤ b.start)

end Comment

end Surveyor
