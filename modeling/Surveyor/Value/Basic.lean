import Surveyor.Number.Binary64
import Surveyor.Text.Basic

/-! # Values

`Value` is the common form of everything that is read from manifests, handed from stage to stage
and published in a report: scalars, sequences, sets of scalars and mappings from strings in the
order in which their keys were first written. A sequence is a `list` and a mapping a `map` while it
is being built; once it has been published in a frozen snapshot, it is a `tuple` or a `view`.
-/

namespace Surveyor

inductive Value where
  | null
  | bool (b : Bool)
  | int (n : Int)
  | float (x : Float)
  | str (s : String)
  | list (items : List Value)
  | tuple (items : List Value)
  | set (items : List Value)
  | map (entries : List (String × Value))
  | view (entries : List (String × Value))
  deriving Inhabited, Repr

/-- A mapping in the order of its keys. -/
abbrev Entries := List (String × Value)

namespace Entries

/-- Replaces the value of a key in place, or adds the key at the end. -/
def insert (key : String) (value : Value) : Entries → Entries
  | [] => [(key, value)]
  | (k, v) :: rest => if k == key then (key, value) :: rest else (k, v) :: insert key value rest

/-- Adds a key that is not there yet. -/
def insertNew (key : String) (value : Value) (entries : Entries) : Entries :=
  if (entries.lookup key).isSome then entries else entries ++ [(key, value)]

def update (first second : Entries) : Entries :=
  second.foldl (fun entries (key, value) => insert key value entries) first

end Entries

namespace Value

def get? (v : Value) (key : String) : Option Value :=
  match v with
  | .map entries | .view entries => entries.lookup key
  | _ => none

/-- The value under a key; null for a missing key and for what is no mapping. -/
def get (v : Value) (key : String) : Value := (v.get? key).getD .null

/-- Nothing, zero and empty values do not count as given. -/
def isGiven : Value → Bool
  | .null => false
  | .bool b => b
  | .int n => n != 0
  | .float x => !(x == 0.0)
  | .str s => !s.isEmpty
  | .list items | .tuple items | .set items => !items.isEmpty
  | .map entries | .view entries => !entries.isEmpty

/-- The members of a sequence; none of anything else. -/
def items : Value → List Value
  | .list items | .tuple items => items
  | _ => []

def entries : Value → Entries
  | .map entries | .view entries => entries
  | _ => []

def isMap : Value → Bool
  | .map _ | .view _ => true
  | _ => false

def str? : Value → Option String
  | .str s => some s
  | _ => none

def asStr (v : Value) : String := v.str?.getD ""

/-- A whole number: an integer, the whole part of a finite double, or a truth value. -/
def asInt : Value → Int
  | .int n => n
  | .bool b => if b then 1 else 0
  | .float x =>
    match Binary64.parts? x with
    | some p =>
      let (numerator, denominator) := Binary64.scaleFraction p.significand p.exponent
      let whole : Int := ((numerator / denominator : Nat) : Int)
      if p.negative then -whole else whole
    | none => 0
  | _ => 0

def ofOption : Option String → Value
  | some s => .str s
  | none => .null

def ofNat (n : Nat) : Value := .int n

def strings (names : List String) : Value := .list (names.map .str)

end Value

end Surveyor
