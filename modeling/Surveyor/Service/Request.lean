import Surveyor.Json.Reader
import Surveyor.Project
import Surveyor.Text.Encoding

/-! # Requests to the service

A request for an analysis is a JSON object. `projectOfBody` reads it, or says of every part of it that
does not fit what is wrong there.
-/

namespace Surveyor.Service

inductive FaultKind where
  | missing
  | malformedJson
  | notAnObject
  | notAString
  | notAList
  deriving DecidableEq, Repr

def FaultKind.label : FaultKind → String
  | .missing => "missing"
  | .malformedJson => "json_invalid"
  | .notAnObject => "model_attributes_type"
  | .notAString => "string_type"
  | .notAList => "list_type"

/-- A step towards a part of a body: the value of a key, or the item, or the character, at a
position. -/
inductive Step where
  | key (name : String)
  | position (index : Nat)
  deriving DecidableEq, Repr

def Step.toValue : Step → Value
  | .key name => .str name
  | .position index => .ofNat index

/-- A fault of a body, where it is and what is given there. -/
structure BodyFault where
  kind : FaultKind
  place : List Step
  given : Value

inductive BodyError where
  | faults (faults : List BodyFault)
  /-- The text is not read to its end. -/
  | unreadable

/-- A value, or the faults that stand in its way. -/
abbrev Checked (α : Type) := Except (List BodyFault) α

namespace Checked

/-- Applies a function to a value, or collects the faults of both. -/
def apply {α β : Type} : Checked (α → β) → Checked α → Checked β
  | .ok f, .ok a => .ok (f a)
  | .ok _, .error faults => .error faults
  | .error faults, .ok _ => .error faults
  | .error first, .error second => .error (first ++ second)

end Checked

def checkString (place : List Step) : Value → Checked String
  | .str s => .ok s
  | v => .error [⟨.notAString, place, v⟩]

def checkOptional (place : List Step) : Value → Checked (Option String)
  | .null => .ok none
  | v => (checkString place v).map some

def checkItems (place : List Step) : List Value → Nat → Checked (List String)
  | [], _ => .ok []
  | item :: rest, index =>
    Checked.apply ((checkString (place ++ [.position index]) item).map List.cons)
      (checkItems place rest (index + 1))

def checkStrings (place : List Step) : Value → Checked (List String)
  | .list items => checkItems place items 0
  | v => .error [⟨.notAList, place, v⟩]

def bodyPlace : List Step := [.key "body"]

/-- Checks the value of a key; `default` is what stands for a key that is not there. -/
def checkField {α : Type} (entries : Entries) (key : String) (default : Checked α)
    (check : List Step → Value → Checked α) : Checked α :=
  match entries.lookup key with
  | some v => check (bodyPlace ++ [.key key]) v
  | none => default

def checkProject (entries : Entries) : Checked Project :=
  let noPath : Checked String := .error [⟨.missing, bodyPlace ++ [.key "path"], .map entries⟩]
  let project : Checked (String → Option String → List String → String → Option String → Project) :=
    .ok fun path name excluded projectType framework =>
      ⟨path, .ofOption name, .strings excluded, .str projectType, .ofOption framework⟩
  project.apply (checkField entries "path" noPath checkString)
    |>.apply (checkField entries "name" (.ok none) checkOptional)
    |>.apply (checkField entries "excluded_folders" (.ok []) checkStrings)
    |>.apply (checkField entries "project_type" (.ok "auto") checkString)
    |>.apply (checkField entries "framework" (.ok none) checkOptional)

def projectOfBody (body : ByteArray) : Except BodyError Project :=
  let missing : BodyError := .faults [⟨.missing, bodyPlace, .null⟩]
  if body.isEmpty then .error missing
  else
    match Encoding.read? body with
    | none => .error .unreadable
    | some chars =>
      match Json.readText chars.toArray with
      | .error (.malformed offset) =>
        .error (.faults [⟨.malformedJson, bodyPlace ++ [.position offset], .map []⟩])
      | .error _ => .error .unreadable
      | .ok .null => .error missing
      | .ok (.map entries) => (checkProject entries).mapError .faults
      | .ok other => .error (.faults [⟨.notAnObject, bodyPlace, other⟩])

end Surveyor.Service
