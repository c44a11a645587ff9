import Surveyor.Quality.Contents

/-! # What the stages read off a snapshot

A part that is missing or empty counts as empty; a part of the wrong kind is a fault.
-/

namespace Surveyor

namespace Snapshot

def partField (snapshot : Value) (part key : String) : Except ValueFault Value := do
  return (← ((← snapshot.field part).orElse (.map [])).field key).orElse (.list [])

def files (snapshot : Value) : Except ValueFault Value := partField snapshot "file_system" "files"

def outlines (snapshot : Value) : Except ValueFault Value :=
  partField snapshot "code_structure" "files"

def contents (snapshot : Value) : Except ValueFault Contents := do
  match (← snapshot.field "_file_contents").orElse (.map []) with
  | .map entries | .view entries => return entries.map fun (path, content) => (path, content.asStr)
  | other => .error (.noOperation other.kindName "items")

def obfuscatedPath? (file : Value) : Except ValueFault (Option Value) := do
  if (← file.field "obfuscated").isGiven then return some (← (← file.entry "path").asKey)
  else return none

def obfuscated (files : Value) : Except ValueFault (List String) := do
  let paths ← (← files.members).mapM obfuscatedPath?
  return (paths.filterMap id).filterMap Value.str?

end Snapshot

end Surveyor
