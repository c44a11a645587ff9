import Surveyor.Value.Merge

/-! # The record of a run

The report holds under `meta` what was run and how it went. Stages can write there like anywhere
else; a record they have damaged ends the run, like a result that cannot be merged.
-/

namespace Surveyor

def recordKey : String := "meta"

def layersKey : String := "layers_executed"

def reportVersion : String := "1.0.0"

inductive RecordFault where
  /-- What the stage returned cannot be merged. -/
  | unmerged (fault : ValueFault)
  /-- The record, or the entry of a stage in it, is of the wrong kind. -/
  | wrongKind
  /-- The list of stages is no list. -/
  | noLayerList
  | missingKey (key : String)
  deriving DecidableEq, Repr

structure LayerRecord where
  name : String
  durationMs : Int
  /-- The text of the failure, if the stage failed. -/
  error : Option String
  deriving DecidableEq, Repr

def LayerRecord.toValue (r : LayerRecord) : Value :=
  .map ([("name", Value.str r.name), ("duration_ms", Value.int r.durationMs),
    ("status", Value.str (if r.error.isNone then "completed" else "failed"))]
    ++ (r.error.map fun text => ("error", Value.str text)).toList)

def initialReport (projectName : Value) (root analyzedAt : String) : Entries :=
  [(recordKey, .map [("project_name", projectName), ("root_path", .str root),
    ("analyzed_at", .str analyzedAt), ("version", .str reportVersion), (layersKey, .list [])])]

def recordEntries (report : Entries) : Except RecordFault Entries :=
  match report.lookup recordKey with
  | some (.map record) => .ok record
  | some _ => .error .wrongKind
  | none => .error (.missingKey recordKey)

def recordLayers (record : Entries) : Except RecordFault (List Value) :=
  match record.lookup layersKey with
  | some (.list layers) => .ok layers
  | some _ => .error .noLayerList
  | none => .error (.missingKey layersKey)

def appendLayer (report : Entries) (layer : LayerRecord) : Except RecordFault Entries := do
  let record ← recordEntries report
  let layers ← recordLayers record
  return report.insert recordKey (.map (record.insert layersKey (.list (layers ++ [layer.toValue]))))

def failedNames : List Value → Except RecordFault (List Value)
  | [] => .ok []
  | .map layer :: rest =>
    match layer.lookup "status", layer.lookup "name" with
    | none, _ => .error (.missingKey "status")
    | some (.str "failed"), some name => do return name :: (← failedNames rest)
    | some (.str "failed"), none => .error (.missingKey "name")
    | some _, _ => failedNames rest
  | _ :: _ => .error .wrongKind

/-- Enters how long the run took; the report and the names of the failed stages. -/
def finishRecord (report : Entries) (durationMs : Int) :
    Except RecordFault (Entries × List String) := do
  let record ← recordEntries report
  let failed ← failedNames (← recordLayers record)
  if failed.all (·.str?.isSome) then
    return (report.insert recordKey (.map (record.insert "duration_ms" (.int durationMs))),
      failed.map (·.asStr))
  else .error .wrongKind

/-- The part of a report that a stage sees: what it reads, and the record. -/
def restrict (report : Entries) (reads : List String) : Entries :=
  report.filter fun (key, _) => key == recordKey || reads.contains key

end Surveyor
