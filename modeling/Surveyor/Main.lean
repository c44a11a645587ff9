import Std.Time.DateTime.Timestamp
import Surveyor.Command.Analyze
import Surveyor.Command.Listing
import Surveyor.Inspection.Builtin

/-! # The program

The files of the project are listed on the standard input, for instance by
`find . -type f -printf '%T@ %P\n'`; the program reads those files, analyses them and puts out the
report.
-/

namespace Surveyor.Command

/-- The lines of a stream up to its end. -/
partial def readLines (input : IO.FS.Stream) (found : Array String) : IO (Array String) := do
  let line ← input.getLine
  if line.isEmpty then return found else readLines input (found.push line)

def loadTree (anchor : String) (listing : List ListedFile) : IO FileTree := do
  let mut tree : FileTree := ⟨anchor, .directory []⟩
  for file in listing do
    if let some names := tree.names? [] file.path then
      tree := tree.putFile names (← IO.FS.readBinFile file.path) file.modified
  return tree

def writeFile (file : FileText) : IO Unit := do
  if let some folder := Text.beforeLast? '/' file.path then
    unless folder.isEmpty do IO.FS.createDirAll folder
  let mode : IO.FS.Mode := if file.appends then .append else .write
  IO.FS.withFile file.path mode fun handle => handle.putStr file.text

def surroundings (tree : FileTree) : IO Surroundings := do
  let time ← Std.Time.Timestamp.now
  let now := time.toNanosecondsSinceUnixEpoch.val / 1000
  let own ← IO.getEnv "HOME"
  return ⟨tree, [], fun owner => if owner.isEmpty then own else none,
    ← IO.getEnv "CODEINSPECTOR_PROJECT_TYPE", now, Timestamp.isoText now, builtinRegistrations,
    Yaml.Document.ofText⟩

def finish (outcome : Outcome) : IO UInt32 := do
  outcome.written.forM writeFile
  (← IO.getStderr).putStr outcome.stderr
  (← IO.getStdout).putStr outcome.stdout
  return outcome.status.toUInt32

end Surveyor.Command

open Surveyor Surveyor.Command in
def main (arguments : List String) : IO UInt32 := do
  let listing ←
    match Request.read arguments with
    | .ok (.analyze _) => readLines (← IO.getStdin) #[]
    | _ => pure #[]
  let anchor := (← IO.getEnv "PWD").getD ""
  let tree ← loadTree anchor (listing.toList.filterMap ListedFile.ofLine?)
  match execute (← surroundings tree) [.whole 0] arguments with
  | .ok (.done outcome) => finish outcome
  | .ok (.serve request) =>
    (← IO.getStderr).putStr ("no network to serve at " ++ request.host ++ "\n")
    return 1
  | .error fault =>
    (← IO.getStderr).putStr (fault.message ++ "\n")
    return 1
