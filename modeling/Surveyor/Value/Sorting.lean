import Surveyor.Value.Access

/-! # Sorting by values

`Value.sortedBy` sorts by keys of any kind. Strings always have an order. Among other keys two may
have none, so it matters which of them are compared: a run at the beginning that is in order already,
or in reverse order, is kept, and every further item is put in its place by halving.
-/

namespace Surveyor

namespace Value

variable {α : Type}

def comesBefore (a b : Value) : Except ValueFault Bool :=
  match isBefore? a b with
  | some answer => .ok answer
  | none => .error (.wrongKind
      ("'<' not supported between instances of '" ++ a.kindName ++ "' and '" ++ b.kindName ++ "'"))

/-- The items from `last` on that descend, or that do not, and the rest. -/
def runFrom (descending : Bool) (last : Value × α) :
    List (Value × α) → Except ValueFault (List (Value × α) × List (Value × α))
  | [] => .ok ([last], [])
  | item :: rest => do
    if (← comesBefore item.1 last.1) == descending then
      let (run, rest) ← runFrom descending item rest
      return (last :: run, rest)
    else return ([last], item :: rest)

def leadingRun : List (Value × α) → Except ValueFault (List (Value × α) × List (Value × α))
  | first :: second :: rest => do
    let descending ← comesBefore second.1 first.1
    let (run, rest) ← runFrom descending first (second :: rest)
    return (if descending then run.reverse else run, rest)
  | items => .ok (items, [])

/-- The place of a key behind those that it does not come before, between two places. -/
def placeBetween (sorted : Array (Value × α)) (key : Value) (low high : Nat) :
    Except ValueFault Nat :=
  if low < high then
    match sorted[(low + high) / 2]? with
    | none => .ok low
    | some (middle, _) => do
      if ← comesBefore key middle then placeBetween sorted key low ((low + high) / 2)
      else placeBetween sorted key ((low + high) / 2 + 1) high
  else .ok low
termination_by high - low

def insertSorted (sorted : Array (Value × α)) (item : Value × α) :
    Except ValueFault (Array (Value × α)) := do
  let place ← placeBetween sorted item.1 0 sorted.size
  return sorted.insertIdxIfInBounds place item

def sortKeyed (items : List (Value × α)) : Except ValueFault (List (Value × α)) := do
  let (run, rest) ← leadingRun items
  return (← rest.foldlM insertSorted run.toArray).toList

def sortedBy (key : α → Value) (items : List α) : Except ValueFault (List α) :=
  if items.all fun item => (key item).str?.isSome then
    .ok (items.mergeSort fun a b => scalarAtMost (key a) (key b))
  else return (← sortKeyed (items.map fun item => (key item, item))).map (·.2)

end Value

end Surveyor
