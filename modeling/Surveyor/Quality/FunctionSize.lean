import Surveyor.Quality.Contents
import Surveyor.Quality.Declarations
import Surveyor.Quality.Issue
import Surveyor.Source.Braces
import Surveyor.Source.Lines
import Surveyor.Value.Display

/-! # Large functions -/

namespace Surveyor

/-- The lines from the one with the first opening brace to the one where the depth of braces is
back at zero or below, after the depth and whether a brace was opened so far. -/
def linesInBraces (depth : Int) (opened : Bool) : Nat → List (List Char) → Nat
  | count, [] => count
  | count, line :: rest =>
    let depth := line.foldl (fun depth c => depth + braceStep c) depth
    let opened := opened || line.contains '{'
    if opened then
      if depth ≤ 0 then count + 1 else linesInBraces depth opened (count + 1) rest
    else linesInBraces depth opened count rest

/-- The number of lines of the function that starts at an index, which may count from the back. -/
def functionLines (lines : List (List Char)) (start : Int) : Nat :=
  linesInBraces 0 false 0 (lines.drop (Text.clampIndex lines.length start))

/-- The languages that are known, and how many lines a function may have there. -/
def lineThresholds : List (String × Nat) :=
  [("php", 500), ("javascript", 100), ("typescript", 100), ("vue", 100)]

def defaultLineThreshold : Nat := 150

def knownThreshold? : Value → Option Nat
  | .str language => lineThresholds.lookup language
  | _ => none

def lineThreshold (language : Value) : Nat := (knownThreshold? language).getD defaultLineThreshold

structure SizeCandidate where
  name : Value
  line : Value
  label : String

def functionCandidate (f : Value) : Except ValueFault SizeCandidate := do
  return ⟨← f.entry "name", ← f.entry "line", "Function"⟩

/-- A method is called by its class and its name. -/
def methodCandidate (owner m : Value) : Except ValueFault SizeCandidate := do
  let ownName ← owner.entry "name"
  let name ← m.entry "name"
  return ⟨.str (ownName.display ++ "." ++ name.display), ← m.entry "line", "Method"⟩

def sizeCandidates (o : Value) : Except ValueFault (List SizeCandidate) := do
  let functions ← (← o.membersUnder "functions").mapM functionCandidate
  let methods ← (← o.membersUnder "classes").mapM fun c => do
    (← c.membersUnder "methods").mapM (methodCandidate c)
  return functions ++ methods.flatten

def largeFunction (path language : Value) (size : Nat) (c : SizeCandidate) : Issue where
  name := c.name
  kind := "large_function"
  severity := if (knownThreshold? language).isSome then "info" else "warning"
  file := path
  line := c.line
  tag := toString size ++ " lines"
  description :=
    c.label ++ " \"" ++ c.name.display ++ "\" is " ++ toString size ++ " lines (threshold for "
      ++ language.display ++ ": " ++ toString (lineThreshold language) ++ ")"
  extra := [("lines", .ofNat size), ("threshold", .ofNat (lineThreshold language)),
    ("language", language)]

def SizeCandidate.size (lines : List (List Char)) (c : SizeCandidate) : Except ValueFault Nat := do
  return functionLines lines ((← c.line.position) - 1)

def largeFunctionsOf (contents : Contents) (path o : Value) : Except ValueFault (List Issue) := do
  match ← contents.filledAt? path with
  | none => return []
  | some content =>
    let lines := textLines (Text.ofString content)
    let language ← ((← o.field "language").orElse (.str "default")).asKey
    let sized ← (← sizeCandidates o).mapM fun c => do return (c, ← c.size lines)
    return (sized.filter fun (_, size) => lineThreshold language < size).map
      fun (c, size) => largeFunction path language size c

def largeFunctions (outlines : Value) (contents : Contents) : Except ValueFault (List Issue) := do
  return (← (← outlinesByPath outlines).mapM fun (path, o) =>
    largeFunctionsOf contents path o).flatten

end Surveyor
