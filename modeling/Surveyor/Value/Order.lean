import Surveyor.Value.Basic

/-! # Order and equality of values

Numbers are compared by their exact value, whether they are whole or doubles, strings by code points,
and sequences by the first items in which they differ. Other values have no order.
-/

namespace Surveyor

namespace Value

/-- How two numbers compare; nothing for what is no number and for undefined doubles. -/
def compareNumbers? : Value → Value → Option Ordering
  | .float x, .float y => if x < y then some .lt else if x == y then some .eq
    else if y < x then some .gt else none
  | .int a, .float y => Binary64.compareInt? a y
  | .bool a, .float y => Binary64.compareInt? (if a then 1 else 0) y
  | .float x, .int b => (Binary64.compareInt? b x).map Ordering.swap
  | .float x, .bool b => (Binary64.compareInt? (if b then 1 else 0) x).map Ordering.swap
  | .int a, .int b => some (compare a b)
  | .int a, .bool b => some (compare a (if b then 1 else 0))
  | .bool a, .int b => some (compare (if a then 1 else 0) b)
  | .bool a, .bool b => some (compare a.toNat b.toNat)
  | _, _ => none

def isNumber : Value → Bool
  | .bool _ | .int _ | .float _ => true
  | _ => false

def sameScalar : Value → Value → Bool
  | .null, .null => true
  | .str s, .str t => s == t
  | a, b => compareNumbers? a b == some .eq

/-- Does the first scalar come before the second or equal it? -/
def scalarAtMost : Value → Value → Bool
  | .str s, .str t => decide (s ≤ t)
  | a, b =>
    match compareNumbers? a b with
    | some .gt => false
    | _ => true

/-- The set of scalars; of equal ones the first stays. -/
def setOf (items : List Value) : Value :=
  .set (items.foldl
    (fun kept item => if kept.any (sameScalar item) then kept else kept ++ [item]) [])

/-! ## Values that are not scalars -/

mutual

/-- Are two values equal? The order of the keys of a mapping does not matter. -/
def same : Value → Value → Bool
  | .list a, .list b | .tuple a, .tuple b => sameItems a b
  | .set a, .set b => a.length == b.length && areAmong b a
  | .map a, .map b | .map a, .view b | .view a, .map b | .view a, .view b =>
    a.length == b.length && areEntriesOf b a
  | a, b => sameScalar a b
termination_by a => sizeOf a

def sameItems : List Value → List Value → Bool
  | [], [] => true
  | a :: rest, b :: others => same a b && sameItems rest others
  | _, _ => false
termination_by a => sizeOf a

def areAmong (others : List Value) : List Value → Bool
  | [] => true
  | a :: rest => others.any (same a) && areAmong others rest
termination_by items => sizeOf items

/-- Does every key lead to an equal value in `others`? -/
def areEntriesOf (others : Entries) : List (String × Value) → Bool
  | [] => true
  | (key, a) :: rest => (others.lookup key).any (same a) && areEntriesOf others rest
termination_by entries => sizeOf entries

end

mutual

/-- Does the first value come before the second? Nothing if they have no order. -/
def isBefore? : Value → Value → Option Bool
  | .str s, .str t => some (decide (s < t))
  | .list a, .list b | .tuple a, .tuple b => areBefore? a b
  | .set a, .set b => some (decide (a.length < b.length) && areAmong b a)
  | a, b => if a.isNumber && b.isNumber then some (compareNumbers? a b == some .lt) else none

/-- The first items that differ decide, and a sequence comes after its beginnings. -/
def areBefore? : List Value → List Value → Option Bool
  | a :: rest, b :: others => if same a b then areBefore? rest others else isBefore? a b
  | [], others => some (!others.isEmpty)
  | _ :: _, [] => some false

end

/-- Values stand in this order if the first comes before the second, or at least not after it. -/
def atMost (a b : Value) : Bool := isBefore? a b == some true || isBefore? b a != some true

def inOrder (items : List Value) : List Value := items.mergeSort atMost

end Value

end Surveyor
