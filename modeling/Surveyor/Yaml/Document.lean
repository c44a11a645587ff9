import Surveyor.Yaml.Graph
import Surveyor.Yaml.Number
import Surveyor.Yaml.Octets
import Surveyor.Yaml.Timestamp

/-! # The values of a YAML document

Every node gets one value, so that a node with several uses has the same value everywhere. The
values of scalars are found at once, those of the parts of a collection only after the collections
that were met before: faults are met level by level.
-/

namespace Surveyor.Yaml

/-- The value of a node; collections list the numbers of their parts. Of a mapping only the entries
under strings are kept. -/
inductive Datum where
  | null
  | bool (b : Bool)
  | int (n : Int)
  | float (x : Float)
  | str (s : String)
  | bytes (octets : List Nat)
  | timestamp
  | list (items : List Nat)
  | map (entries : List (String × Nat))
  | set
  /-- A sequence of pairs. -/
  | pairs
  deriving Inhabited

def Datum.isKey : Datum → Bool
  | .list _ | .map _ | .set | .pairs => false
  | _ => true

/-- Words for the truth values are compared in lower case. -/
def boolOf (text : String) : Except YamlError Bool :=
  match lower text with
  | "yes" | "true" | "on" => .ok true
  | "no" | "false" | "off" => .ok false
  | word => .error (.unknownWord word)

structure Construction where
  nodes : Array Node
  values : Array (Option Datum)
  /-- The collections whose parts have no values yet, the last one met first. -/
  waiting : List Nat

abbrev Constructor := StateT Construction (Except YamlError)

namespace Construction

def fail {α : Type} (e : YamlError) : Constructor α := fun _ => .error e

def check {α : Type} (result : Except YamlError α) : Constructor α := fun s => result.map (·, s)

def node (number : Nat) : Constructor Node := do return (← get).nodes.getD number (.scalar .null "")

def setNode (number : Nat) (node : Node) : Constructor Unit :=
  modify fun s => { s with nodes := s.nodes.setIfInBounds number node }

def setValue (number : Nat) (value : Datum) : Constructor Unit :=
  modify fun s => { s with values := s.values.setIfInBounds number (some value) }

/-- Gives a collection an empty value until its turn comes. -/
def wait (number : Nat) (value : Datum) : Constructor Datum := do
  setValue number value
  modify fun s => { s with waiting := number :: s.waiting }
  return value

/-! ## Scalars -/

/-- The text of a scalar; a mapping with an entry under an equals sign stands for what is there. -/
def scalarText (nodes : Array Node) : Nat → Node → Except YamlError String
  | 0, _ => .error .circular
  | fuel + 1, node =>
    match node with
    | .scalar _ text => .ok text
    | .sequence _ _ => .error .malformed
    | .mapping _ entries =>
      match entries.find? fun (key, _) => (nodes.getD key (.scalar .null "")).tag == .value with
      | some (_, value) => scalarText nodes fuel (nodes.getD value (.scalar .null ""))
      | none => .error .malformed

def scalarValue (tag : Tag) (text : String) : Except YamlError Datum :=
  match tag with
  | .null => .ok .null
  | .bool => (boolOf text).map .bool
  | .int => (intOf text).map .int
  | .float => (floatOf text).map .float
  | .str => .ok (.str text)
  | .binary => (octetsOf text).map .bytes
  | .timestamp => (checkTimestamp text).map fun _ => .timestamp
  | _ => .error .malformed

def isMapping : Node → Bool
  | .mapping _ _ => true
  | _ => false

/-- The value of a node; the parts of a collection have to wait. -/
def valueOf (number : Nat) : Constructor Datum := do
  match (← get).values.getD number none with
  | some value => return value
  | none => do
    let node ← node number
    match node.tag with
    | .sequence => wait number (.list [])
    | .mapping => wait number (.map [])
    | .set => wait number .set
    | .orderedMap | .pairs => wait number .pairs
    | .merge | .value | .unknown => fail .malformed
    | tag => do
      let nodes := (← get).nodes
      let text ← check (scalarText nodes (nodes.size + 1) node)
      if tag == .timestamp && isMapping node then fail .timestampOfMapping
      let value ← check (scalarValue tag text)
      setValue number value
      return value

/-! ## Merge keys -/

def entriesOf (number : Nat) : Constructor (List (Nat × Nat)) := do
  match ← node number with
  | .mapping _ entries => return entries
  | _ => fail .malformed

def setEntries (number : Nat) (entries : List (Nat × Nat)) : Constructor Unit := do
  setNode number (.mapping (← node number).tag entries)

/-- Is the key of an entry a merge key or an equals sign? -/
def hasMark (nodes : Array Node) (entry : Nat × Nat) : Bool :=
  match (nodes.getD entry.1 (.scalar .null "")).tag with
  | .merge | .value => true
  | _ => false

mutual

/-- Puts the entries that merge keys bring in before those of their mapping. -/
def flatten : Nat → Nat → Constructor Unit
  | 0, _ => fail .circular
  | fuel + 1, number => do
    let nodes := (← get).nodes
    if (← entriesOf number).any (hasMark nodes) then
      let merged ← flattenFrom fuel number 0 []
      if !merged.isEmpty then setEntries number (merged ++ (← entriesOf number))

/-- Takes the merge keys from an index on out of a mapping and collects the entries they bring in.
Of several mappings earlier ones take precedence. An equals sign becomes an ordinary key. -/
def flattenFrom : Nat → Nat → Nat → List (Nat × Nat) → Constructor (List (Nat × Nat))
  | 0, _, _, _ => fail .circular
  | fuel + 1, number, index, merged => do
    let entries ← entriesOf number
    match entries[index]? with
    | none => return merged
    | some (key, value) => do
      let keyNode ← node key
      match keyNode.tag with
      | .merge => do
        setEntries number (entries.eraseIdx index)
        match ← node value with
        | .scalar _ _ => fail .malformed
        | .mapping _ _ => do
          flatten fuel value
          flattenFrom fuel number index (merged ++ (← entriesOf value))
        | .sequence _ items => do
          let parts ← items.mapM fun item => do
            let _ ← entriesOf item
            flatten fuel item
            entriesOf item
          flattenFrom fuel number index (merged ++ parts.reverse.flatten)
      | .value => do
        setNode key (keyNode.withTag .str)
        flattenFrom fuel number (index + 1) merged
      | _ => flattenFrom fuel number (index + 1) merged

end

/-- More steps than the merge keys of a document take one after the other, each of which can double
the entries of a mapping. -/
def mergeSteps (nodes : Array Node) : Nat :=
  let parts := nodes.foldl (fun count node =>
    match node with
    | .scalar _ _ => count
    | .sequence _ items => count + items.length
    | .mapping _ entries => count + entries.length) 0
  Nat.pow 2 (2 * parts + 8)

/-! ## Collections -/

/-- The entries of a mapping under strings, the last one first, so that it counts of several under
one string. -/
def mappingEntries : List (Nat × Nat) → List (String × Nat) → Constructor (List (String × Nat))
  | [], found => return found
  | (key, value) :: rest, found => do
    let key ← valueOf key
    if !key.isKey then fail .malformed
    let _ ← valueOf value
    match key with
    | .str name => mappingEntries rest ((name, value) :: found)
    | _ => mappingEntries rest found

def pairOf (number : Nat) : Constructor Unit := do
  match ← node number with
  | .mapping _ [(key, value)] => do
    let _ ← valueOf key
    let _ ← valueOf value
  | _ => fail .malformed

def fillIn (number : Nat) : Constructor Unit := do
  let node ← node number
  match node.tag, node with
  | .sequence, .sequence _ items => do
    items.forM fun item => do let _ ← valueOf item
    setValue number (.list items)
  | .orderedMap, .sequence _ items | .pairs, .sequence _ items => items.forM pairOf
  | .mapping, .mapping _ _ => do
    flatten (mergeSteps (← get).nodes) number
    setValue number (.map (← mappingEntries (← entriesOf number) []))
  | .set, .mapping _ _ => do
    flatten (mergeSteps (← get).nodes) number
    let _ ← mappingEntries (← entriesOf number) []
  | _, _ => fail .malformed

def fillAll : Nat → Constructor Unit
  | 0 => pure ()
  | fuel + 1 => do
    let waiting := (← get).waiting.reverse
    if !waiting.isEmpty then do
      modify fun s => { s with waiting := [] }
      waiting.forM fillIn
      fillAll fuel

end Construction

/-- The values of a document by the numbers of their nodes, and the number of the whole. -/
structure Document where
  values : Array Datum
  root : Nat

namespace Document

def ofGraph (g : Graph) : Except YamlError Document := do
  let start : Construction := ⟨g.nodes, Array.replicate g.nodes.size none, []⟩
  let construct : Constructor Unit := do
    let _ ← Construction.valueOf g.root
    Construction.fillAll (g.nodes.size + 1)
  let (_, s) ← construct.run start
  return ⟨s.values.map (·.getD .null), g.root⟩

def ofText (t : Text) : Except YamlError (Option Document) := do
  match ← Graph.ofText t with
  | some graph => return some (← ofGraph graph)
  | none => return none

def value (d : Document) (number : Nat) : Datum := d.values.getD number .null

def top (d : Document) : Datum := d.value d.root

def get (d : Document) (datum : Datum) (key : String) : Datum :=
  match datum with
  | .map entries => ((entries.lookup key).map d.value).getD .null
  | _ => .null

end Document

/-- A reader of YAML: the only document of a text, or nothing if the text has none. -/
abbrev Loader := Text → Except YamlError (Option Document)

end Surveyor.Yaml
