import Surveyor.Value.Access

/-! # Findings -/

namespace Surveyor

/-- A finding, with further details that depend on its kind. What it names, and where that is, is
quoted as it was published. -/
structure Issue where
  name : Value
  kind : String
  severity : String
  file : Value
  line : Value
  tag : String
  description : String
  extra : Entries

namespace Issue

/-- The severities in the order in which findings are listed. -/
def severities : List String := ["critical", "warning", "info"]

/-- The place of a severity; an unknown one comes last. -/
def severityRank (severity : String) : Nat := severities.findIdx (· == severity)

/-- Adds details to fields; a detail never hides a field. -/
def publish (fields details : Entries) : Value :=
  .map (details.foldl (fun entries (key, value) => Entries.insertNew key value entries) fields)

def toValue (i : Issue) : Value :=
  publish
    [("name", i.name), ("kind", .str i.kind), ("severity", .str i.severity), ("file", i.file),
      ("line", i.line), ("tag", .str i.tag), ("description", .str i.description)]
    i.extra

def fieldNames : List String :=
  ["name", "kind", "severity", "file", "line", "tag", "description"]

/-- The published form of a finding whose fields, and details under `extra`, are given. -/
def ofFields (given : Value) : Except ValueFault Value := do
  let .map entries := given | .error (given.notOfKind "is not a mapping")
  if entries.any fun (key, _) => key != "extra" && !fieldNames.contains key then
    .error (.wrongKind "got an unexpected keyword argument")
  else
    let fields ← fieldNames.mapM fun name =>
      match entries.lookup name with
      | some v => .ok (name, v)
      | none => .error (.wrongKind ("missing required argument: " ++ quoted name))
    match (entries.lookup "extra").getD (.map []) with
    | .map details => return publish fields details
    | other => .error (.noOperation other.kindName "items")

/-- Findings by severity, those of one severity in the given order. -/
def sortBySeverity (issues : List Issue) : List Issue :=
  issues.mergeSort fun a b => decide (severityRank a.severity ≤ severityRank b.severity)

end Issue

end Surveyor
