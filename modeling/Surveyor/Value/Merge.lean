import Surveyor.Value.Display
import Surveyor.Value.Sorting

/-! # Freezing, merging and publishing values

* `Value.freeze` turns every sequence into a tuple and every mapping into a view; `Value.thaw` turns
  them back, and a set into the list of its members in ascending order. It fails on a set with members
  that have no order, and so does whatever merges one.
* `Entries.merge` adds a delta to a mapping: a mapping under a key that holds a mapping is merged
  with it, everything else replaces what was there.
* `Value.publish` drops every key that starts with an underscore, at every depth.
-/

namespace Surveyor

def isInternalKey (key : String) : Bool := Text.hasPrefix key "_"

namespace Value

mutual

def freeze : Value → Value
  | .list items => .tuple (freezeItems items)
  | .tuple items => .tuple (freezeItems items)
  | .set items => .set (freezeItems items)
  | .map entries | .view entries => .view (freezeEntries entries)
  | scalar => scalar

def freezeItems : List Value → List Value
  | [] => []
  | item :: rest => freeze item :: freezeItems rest

def freezeEntries : List (String × Value) → Entries
  | [] => []
  | (key, value) :: rest => (key, freeze value) :: freezeEntries rest

end

/-- Compares each value with all that come after it. -/
def compareAll : List Value → Except ValueFault Unit
  | [] => .ok ()
  | item :: rest => do
    let _ ← rest.mapM (comesBefore item)
    compareAll rest

/-- The members of a set in ascending order. However they are sorted, neighbours are compared, so no
two of them may be without an order. -/
def ascending (items : List Value) : Except ValueFault (List Value) := do
  compareAll items
  return inOrder items

mutual

def thaw : Value → Except ValueFault Value
  | .list items => do return .list (← thawItems items)
  | .tuple items => do return .list (← thawItems items)
  | .set items => do return .list (← ascending (← thawItems items))
  | .map entries | .view entries => do return .map (← thawEntries entries)
  | scalar => .ok scalar

def thawItems : List Value → Except ValueFault (List Value)
  | [] => .ok []
  | item :: rest => do return (← thaw item) :: (← thawItems rest)

def thawEntries : List (String × Value) → Except ValueFault Entries
  | [] => .ok []
  | (key, value) :: rest => do return (key, ← thaw value) :: (← thawEntries rest)

end

mutual

/-- What a value of a delta makes of the value present under its key. -/
def mergeInto (present : Option Value) : Value → Except ValueFault Value
  | .map delta | .view delta =>
    match present with
    | some (.map target) | some (.view target) => do return .map (← mergeEntries target delta)
    | _ => do return .map (← thawEntries delta)
  | other => thaw other

def mergeEntries (target : Entries) : List (String × Value) → Except ValueFault Entries
  | [] => .ok target
  | (key, value) :: rest => do
    mergeEntries (target.insert key (← mergeInto (target.lookup key) value)) rest

end

mutual

/-- A value without internal keys; sequences become lists. -/
def publish : Value → Value
  | .list items => .list (publishItems items)
  | .tuple items => .list (publishItems items)
  | .map entries | .view entries => .map (publishEntries entries)
  | other => other

def publishItems : List Value → List Value
  | [] => []
  | item :: rest => publish item :: publishItems rest

def publishEntries : List (String × Value) → Entries
  | [] => []
  | (key, value) :: rest =>
    if isInternalKey key then publishEntries rest
    else (key, publish value) :: publishEntries rest

end

end Value

def Entries.merge (target delta : Entries) : Except ValueFault Entries :=
  Value.mergeEntries target delta

/-! ## Mappings from pairs -/

/-- The key and the value of a pair, which is the item at an index of a sequence. -/
def Entries.ofPair (index : Nat) (pair : Value) : Except ValueFault (String × Value) := do
  let place := "dictionary update sequence element #" ++ toString index
  match pair.members with
  | .ok [key, value] => return ((← key.asKey).display, value)
  | .ok members =>
    .error (.invalid (place ++ " has length " ++ toString members.length ++ "; 2 is required"))
  | .error _ => .error (.wrongKind ("cannot convert " ++ place ++ " to a sequence"))

/-- The entries of a mapping, or of a sequence of keys with their values. -/
def Entries.ofValue : Value → Except ValueFault Entries
  | .map entries | .view entries => .ok entries
  | other => do
    let pairs ← (← other.members).zipIdx.mapM fun (pair, index) => ofPair index pair
    return Entries.update [] pairs

end Surveyor
