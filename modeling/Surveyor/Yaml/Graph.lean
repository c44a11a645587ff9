import Surveyor.Yaml.Tag
import Surveyor.Yaml.Token

/-! # The nodes of a YAML document

A document is a graph: an alias names a node that may be used in several places, even inside itself.
Nodes are numbered in the order in which they start, and collections list the numbers of their
parts. `Graph.ofText` reads the one document of a text.
-/

namespace Surveyor.Yaml

inductive Node where
  | scalar (tag : Tag) (text : String)
  | sequence (tag : Tag) (items : List Nat)
  | mapping (tag : Tag) (entries : List (Nat × Nat))

namespace Node

def tag : Node → Tag
  | .scalar tag _ | .sequence tag _ | .mapping tag _ => tag

def withTag (tag : Tag) : Node → Node
  | .scalar _ text => .scalar tag text
  | .sequence _ items => .sequence tag items
  | .mapping _ entries => .mapping tag entries

end Node

structure Graph where
  nodes : Array Node
  root : Nat

namespace Graph

structure Reading where
  scan : Scan
  nodes : Array Node
  anchors : List (String × Nat)
  handles : List (String × String)

abbrev Reader := StateT Reading (Except YamlError)

def fail {α : Type} (e : YamlError) : Reader α := fun _ => .error e

def peek (t : Text) : Reader Token := do
  let r ← get
  match r.scan.fill t (t.size + 2) with
  | .ok scan => do
    set { r with scan := scan }
    return scan.head
  | .error e => fail e

def skip : Reader Unit := modify fun r => { r with scan := r.scan.take }

def sees (t : Text) (tokens : List Token) : Reader Bool := do return tokens.contains (← peek t)

def enter (node : Node) : Reader Nat :=
  modifyGet fun r => (r.nodes.size, { r with nodes := r.nodes.push node })

def complete (number : Nat) (node : Node) : Reader Unit :=
  modify fun r => { r with nodes := r.nodes.setIfInBounds number node }

def enterEmpty : Reader Nat := enter (.scalar .null "")

/-! ## Properties -/

structure Properties where
  anchor : Option String := none
  /-- The tag as it is written: its handle, if any, and the rest. -/
  tag : Option (Option String × String) := none

/-- The properties of a node, an anchor and a tag in either order. -/
def properties (t : Text) : Reader Properties := do
  match ← peek t with
  | .anchor name => do
    skip
    match ← peek t with
    | .tag handle suffix => do
      skip
      return ⟨some name, some (handle, suffix)⟩
    | _ => return ⟨some name, none⟩
  | .tag handle suffix => do
    skip
    match ← peek t with
    | .anchor name => do
      skip
      return ⟨some name, some (handle, suffix)⟩
    | _ => return ⟨none, some (handle, suffix)⟩
  | _ => return {}

def tagName (tag : Option (Option String × String)) : Reader (Option String) := do
  match tag with
  | none => return none
  | some (handle, suffix) => do
    let name ←
      match handle with
      | none => pure suffix
      | some handle =>
        match (← get).handles.lookup handle with
        | some lead => pure (lead ++ suffix)
        | none => fail .malformed
    return if name == "!" then none else some name

/-- The tag of a scalar. Where it is left open, that of a plain scalar follows from its form; a single
mark has a quoted scalar be treated like a plain one. -/
def scalarTag (name : Option String) (isMarked isPlain : Bool) (text : String) : Tag :=
  match name with
  | some name => Tag.ofName name
  | none => if isMarked || isPlain then Tag.ofPlain text else .str

def collectionTag (name : Option String) (usual : Tag) : Tag := (name.map Tag.ofName).getD usual

/-- No anchor is used twice. -/
def checkAnchor (anchor : Option String) : Reader Unit := do
  match anchor with
  | some name => if ((← get).anchors.lookup name).isSome then fail .malformed else pure ()
  | none => pure ()

def enterAnchored (anchor : Option String) (node : Node) : Reader Nat := do
  let number ← enter node
  match anchor with
  | some name => modify fun r => { r with anchors := (name, number) :: r.anchors }
  | none => pure ()
  return number

/-! ## Nodes -/

mutual

/-- Reads a node. Block collections are allowed in block context only, and a sequence without
indentation of its own only as a part of a block mapping. -/
def read (t : Text) (inBlock indentless : Bool) : Nat → Reader Nat
  | 0 => fail .malformed
  | fuel + 1 => do
    match ← peek t with
    | .reference name => do
      skip
      match (← get).anchors.lookup name with
      | some number => return number
      | none => fail .malformed
    | _ => do
      let own ← properties t
      let name ← tagName own.tag
      let token ← peek t
      checkAnchor own.anchor
      let sequenceTag := collectionTag name .sequence
      let mappingTag := collectionTag name .mapping
      if indentless && token == .blockEntry then do
        let number ← enterAnchored own.anchor (.sequence sequenceTag [])
        complete number (.sequence sequenceTag (← indentlessItems t fuel []))
        return number
      else
        match token with
        | .scalar text isPlain => do
          skip
          let isMarked := own.tag.isSome && name.isNone
          enterAnchored own.anchor (.scalar (scalarTag name isMarked isPlain text) text)
        | .flowSequenceStart => do
          skip
          let number ← enterAnchored own.anchor (.sequence sequenceTag [])
          complete number (.sequence sequenceTag (← flowItems t true fuel []))
          return number
        | .flowMappingStart => do
          skip
          let number ← enterAnchored own.anchor (.mapping mappingTag [])
          complete number (.mapping mappingTag (← flowEntries t true fuel []))
          return number
        | token => do
          if inBlock && token == .blockSequenceStart then do
            skip
            let number ← enterAnchored own.anchor (.sequence sequenceTag [])
            complete number (.sequence sequenceTag (← blockItems t fuel []))
            return number
          else if inBlock && token == .blockMappingStart then do
            skip
            let number ← enterAnchored own.anchor (.mapping mappingTag [])
            complete number (.mapping mappingTag (← blockEntries t fuel []))
            return number
          else if own.anchor.isSome || own.tag.isSome then
            enterAnchored own.anchor (.scalar (scalarTag name true true "") "")
          else fail .malformed

def blockItems (t : Text) : Nat → List Nat → Reader (List Nat)
  | 0, _ => fail .malformed
  | fuel + 1, found => do
    match ← peek t with
    | .blockEntry => do
      skip
      let item ←
        if ← sees t [.blockEntry, .blockEnd] then enterEmpty else read t true false fuel
      blockItems t fuel (item :: found)
    | .blockEnd => do
      skip
      return found.reverse
    | _ => fail .malformed

/-- The items of a sequence that is not indented deeper than the mapping it is in. -/
def indentlessItems (t : Text) : Nat → List Nat → Reader (List Nat)
  | 0, _ => fail .malformed
  | fuel + 1, found => do
    match ← peek t with
    | .blockEntry => do
      skip
      let item ←
        if ← sees t [.blockEntry, .key, .value, .blockEnd] then enterEmpty
        else read t true false fuel
      indentlessItems t fuel (item :: found)
    | _ => return found.reverse

/-- A key or value of a block mapping, after its mark. -/
def blockPart (t : Text) : Nat → Reader Nat
  | 0 => fail .malformed
  | fuel + 1 => do
    if ← sees t [.key, .value, .blockEnd] then enterEmpty else read t true true fuel

def blockEntries (t : Text) : Nat → List (Nat × Nat) → Reader (List (Nat × Nat))
  | 0, _ => fail .malformed
  | fuel + 1, found => do
    match ← peek t with
    | .key => do
      skip
      let key ← blockPart t fuel
      let value ←
        if ← sees t [.value] then do
          skip
          blockPart t fuel
        else enterEmpty
      blockEntries t fuel ((key, value) :: found)
    | .blockEnd => do
      skip
      return found.reverse
    | _ => fail .malformed

/-- A part of a flow collection, after its mark, unless it is left out. -/
def flowPart (t : Text) (endMarks : List Token) : Nat → Reader Nat
  | 0 => fail .malformed
  | fuel + 1 => do
    if ← sees t endMarks then enterEmpty else read t false false fuel

/-- The key and value of an entry of a flow collection, after the mark of the key. -/
def flowPair (t : Text) (closing : Token) : Nat → Reader (Nat × Nat)
  | 0 => fail .malformed
  | fuel + 1 => do
    let key ← flowPart t [.value, .flowEntry, closing] fuel
    let value ←
      if ← sees t [.value] then do
        skip
        flowPart t [.flowEntry, closing] fuel
      else enterEmpty
    return (key, value)

/-- The items of a flow sequence up to its end; a pair is a mapping of its own. -/
def flowItems (t : Text) (isFirst : Bool) : Nat → List Nat → Reader (List Nat)
  | 0, _ => fail .malformed
  | fuel + 1, found => do
    let token ← peek t
    if token == .flowSequenceEnd then do
      skip
      return found.reverse
    if !isFirst then
      if token == .flowEntry then skip else fail .malformed
    match ← peek t with
    | .flowSequenceEnd => do
      skip
      return found.reverse
    | .key => do
      skip
      let number ← enter (.mapping .mapping [])
      let pair ← flowPair t .flowSequenceEnd fuel
      complete number (.mapping .mapping [pair])
      flowItems t false fuel (number :: found)
    | _ => do
      let item ← read t false false fuel
      flowItems t false fuel (item :: found)

/-- The entries of a flow mapping up to its end; an entry may be a key alone. -/
def flowEntries (t : Text) (isFirst : Bool) :
    Nat → List (Nat × Nat) → Reader (List (Nat × Nat))
  | 0, _ => fail .malformed
  | fuel + 1, found => do
    let token ← peek t
    if token == .flowMappingEnd then do
      skip
      return found.reverse
    if !isFirst then
      if token == .flowEntry then skip else fail .malformed
    match ← peek t with
    | .flowMappingEnd => do
      skip
      return found.reverse
    | .key => do
      skip
      let pair ← flowPair t .flowMappingEnd fuel
      flowEntries t false fuel (pair :: found)
    | _ => do
      let key ← read t false false fuel
      let value ← enterEmpty
      flowEntries t false fuel ((key, value) :: found)

end

/-! ## Documents -/

def usualHandles : List (String × String) := [("!", "!"), ("!!", "tag:yaml.org,2002:")]

/-- Takes in directives: one version, which must be known, and handles, each once. -/
def directives (t : Text) (hasVersion : Bool) (handles : List (String × String)) : Nat → Reader Unit
  | 0 => fail .malformed
  | fuel + 1 => do
    match ← peek t with
    | .versionDirective major => do
      skip
      if hasVersion || major != 1 then fail .malformed else directives t true handles fuel
    | .tagDirective handle lead => do
      skip
      if (handles.lookup handle).isSome then fail .malformed
      else directives t hasVersion ((handle, lead) :: handles) fuel
    | .otherDirective => do
      skip
      directives t hasVersion handles fuel
    | _ => modify fun r => { r with handles := handles ++ usualHandles }

def isDirective : Token → Bool
  | .versionDirective _ | .tagDirective _ _ | .otherDirective => true
  | _ => false

def skipEnds (t : Text) : Nat → Reader Unit
  | 0 => pure ()
  | fuel + 1 => do
    if ← sees t [.documentEnd] then do
      skip
      skipEnds t fuel

def explicitStart (t : Text) (fuel : Nat) : Reader Unit := do
  directives t false [] fuel
  if ← sees t [.documentStart] then skip else fail .malformed

/-- The content of a document after its mark. -/
def explicitContent (t : Text) (fuel : Nat) : Reader Nat := do
  let token ← peek t
  if isDirective token || [.documentStart, .documentEnd, .streamEnd].contains token then enterEmpty
  else read t true false fuel

def document (t : Text) (fuel : Nat) : Reader (Option Nat) := do
  let token ← peek t
  if token == .streamEnd then return none
  let root ←
    if isDirective token || token == .documentStart then do
      explicitStart t fuel
      explicitContent t fuel
    else read t true false fuel
  skipEnds t fuel
  if ← sees t [.streamEnd] then return some root
  explicitStart t fuel
  fail .malformed

def ofText (t : Text) : Except YamlError (Option Graph) := do
  let start : Reading := ⟨← Scan.ofText t, #[], [], usualHandles⟩
  let (root, r) ← (document t (16 * t.size + 64)).run start
  return root.map fun root => ⟨r.nodes, root⟩

end Graph

end Surveyor.Yaml
