import Surveyor.Number.Numeral
import Surveyor.Value.Display
import Surveyor.Value.Order

/-! # Using values of any kind

What a stage reads was published by another one and may be of any kind. The functions of this module
use a value for a purpose, and fail with the fault of the first value that does not serve it:

* `entry` and `field` look up a key, `members` goes through a collection,
* `whole` reads a number, `textFor` takes a string.
-/

namespace Surveyor

inductive ValueFault where
  /-- There is nothing under a key, which is shown. -/
  | missingKey (shown : String)
  /-- There is nothing at a position. -/
  | outOfRange (reason : String)
  /-- The purpose is not one for values of this kind. -/
  | wrongKind (reason : String)
  /-- Values of this kind lack an operation. -/
  | noOperation (kind operation : String)
  /-- The value is of the right kind, but stands for nothing. -/
  | invalid (reason : String)
  | tooLarge (reason : String)
  deriving DecidableEq, Repr

namespace ValueFault

def message : ValueFault → String
  | .missingKey shown => shown
  | .outOfRange reason | .wrongKind reason | .invalid reason | .tooLarge reason => reason
  | .noOperation kind operation =>
    "'" ++ kind ++ "' object has no attribute '" ++ operation ++ "'"

end ValueFault

namespace Value

def kindName : Value → String
  | .null => "NoneType"
  | .bool _ => "bool"
  | .int _ => "int"
  | .float _ => "float"
  | .str _ => "str"
  | .list _ => "list"
  | .tuple _ => "tuple"
  | .set _ => "set"
  | .map _ => "dict"
  | .view _ => "mappingproxy"

def notOfKind (v : Value) (complaint : String) : ValueFault :=
  .wrongKind ("'" ++ v.kindName ++ "' object " ++ complaint)

/-- The value under a key that has to be there. -/
def entry (v : Value) (key : String) : Except ValueFault Value :=
  match v with
  | .map entries | .view entries =>
    match entries.lookup key with
    | some found => .ok found
    | none => .error (.missingKey (quoted key))
  | other => .error (other.notOfKind "is not subscriptable")

def fieldOr (v : Value) (key : String) (default : Value) : Except ValueFault Value :=
  match v with
  | .map entries | .view entries => .ok ((entries.lookup key).getD default)
  | other => .error (.noOperation other.kindName "get")

def field (v : Value) (key : String) : Except ValueFault Value := v.fieldOr key .null

def orElse (v default : Value) : Value := if v.isGiven then v else default

/-- The members of a collection; those of a string are its characters, those of a mapping its
keys. -/
def members : Value → Except ValueFault (List Value)
  | .list items | .tuple items | .set items => .ok items
  | .str s => .ok (s.toList.map fun c => .str (String.singleton c))
  | .map entries | .view entries => .ok (entries.map fun (key, _) => .str key)
  | other => .error (other.notOfKind "is not iterable")

def membersUnder (v : Value) (key : String) : Except ValueFault (List Value) := do
  ((← v.field key).orElse (.list [])).members

def textFor (operation : String) : Value → Except ValueFault String
  | .str s => .ok s
  | other => .error (.noOperation other.kindName operation)

/-- The whole number that a value stands for: a string may write it, and a double is cut. -/
def whole : Value → Except ValueFault Int
  | .str s => (Numeral.whole 10 s).mapError fun fault => .invalid (fault.message 10 s)
  | .float x =>
    if x.isNaN then .error (.invalid "cannot convert float NaN to integer")
    else if x.isInf then .error (.tooLarge "cannot convert float infinity to integer")
    else .ok (asInt (.float x))
  | .int n => .ok n
  | .bool b => .ok (asInt (.bool b))
  | other => .error (.wrongKind
      ("int() argument must be a string, a bytes-like object or a real number, not '"
        ++ other.kindName ++ "'"))

def position : Value → Except ValueFault Int
  | .int n => .ok n
  | .bool b => .ok (asInt (.bool b))
  | _ => .error (.wrongKind
      "slice indices must be integers or None or have an __index__ method")

def limit : Value → Except ValueFault (Option Int)
  | .null => .ok none
  | other => other.position.map some

mutual

/-- Can a value be the key of a table? Collections that may change cannot. -/
def isKey : Value → Bool
  | .list _ | .set _ | .map _ | .view _ => false
  | .tuple items => areKeys items
  | _ => true

def areKeys : List Value → Bool
  | [] => true
  | item :: rest => isKey item && areKeys rest

end

def asKey (v : Value) : Except ValueFault Value :=
  if v.isKey then .ok v else .error (.wrongKind ("unhashable type: '" ++ v.kindName ++ "'"))

/-- The item at a position of a sequence, which may count from the back. -/
def itemAt (kind : String) (items : List Value) (key : Value) : Except ValueFault Value :=
  match key.position with
  | .error _ => .error (.wrongKind (kind ++ " indices must be integers"
      ++ (if kind == "string" then ", not '" ++ key.kindName ++ "'"
        else " or slices, not " ++ key.kindName)))
  | .ok n =>
    let index := if n < 0 then n + items.length else n
    match if index < 0 then none else items[index.toNat]? with
    | some item => .ok item
    | none => .error (.outOfRange (kind ++ " index out of range"))

def item (v key : Value) : Except ValueFault Value :=
  match v with
  | .map _ | .view _ => do
    match ← key.asKey with
    | .str name => v.entry name
    | other => .error (.missingKey other.display)
  | .list items => itemAt "list" items key
  | .tuple items => itemAt "tuple" items key
  | .str s => itemAt "string" (s.toList.map fun c => .str (String.singleton c)) key
  | other => .error (other.notOfKind "is not subscriptable")

def pair (v : Value) : Except ValueFault (Value × Value) :=
  match v.members with
  | .ok [a, b] => .ok (a, b)
  | .ok (_ :: _ :: _) => .error (.invalid "too many values to unpack (expected 2)")
  | .ok few => .error (.invalid
      ("not enough values to unpack (expected 2, got " ++ toString few.length ++ ")"))
  | .error _ => .error (.wrongKind ("cannot unpack non-iterable " ++ v.kindName ++ " object"))

/-- Is a value a member of a collection? A string has its parts, a mapping its keys. -/
def holds (v member : Value) : Except ValueFault Bool :=
  match v, member with
  | .str s, .str part => .ok (Text.contains s part)
  | .str _, other => .error (.wrongKind
      ("'in <string>' requires string as left operand, not " ++ other.kindName))
  | .list items, other | .tuple items, other => .ok (items.any other.same)
  | .set items, other => do return items.any (← other.asKey).same
  | .map entries, other | .view entries, other => do
    match ← other.asKey with
    | .str key => return (entries.lookup key).isSome
    | _ => return false
  | other, _ => .error (.wrongKind ("argument of type '" ++ other.kindName ++ "' is not iterable"))

/-- Is the value, used as a key, one of the names? -/
def isAmong (names : List String) (v : Value) : Except ValueFault Bool := do
  match ← v.asKey with
  | .str name => return names.contains name
  | _ => return false

end Value

end Surveyor
