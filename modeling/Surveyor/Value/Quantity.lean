import Surveyor.Value.Access

/-! # Numbers of either kind

A `Quantity` is whole as long as only whole numbers come together and a double otherwise. What is no
number can be handed on, but counting with it fails.

Where whole numbers are compared with a number of either kind, a whole number can take its place:
`Value.greatestUpTo`, `Value.leastFrom` and `Value.period` give it.
-/

namespace Surveyor

/-- A whole number or a double, unless there is a fault. -/
inductive Quantity where
  | whole (n : Int)
  | double (x : Float)
  /-- What is no number, and was not counted with yet. -/
  | odd
  | failed (fault : ValueFault)

namespace Quantity

def notANumber : ValueFault := .wrongKind "unsupported operand type"

def tooLarge : ValueFault := .tooLarge "int too large to convert to float"

/-- The number as a double, if it is in the range of doubles. -/
def toFloat : Quantity → Except ValueFault Float
  | .whole n =>
    let x := Binary64.ofInt n
    if x.isInf then .error tooLarge else .ok x
  | .double x => .ok x
  | .odd => .error notANumber
  | .failed fault => .error fault

/-- The result of an operation, or the first fault among its operands. -/
def onNumbers (a b result : Quantity) : Quantity :=
  match a, b with
  | .failed fault, _ | _, .failed fault => .failed fault
  | .odd, _ | _, .odd => .failed notANumber
  | _, _ => result

/-- Whole on whole numbers, else in doubles. -/
def combine (onInts : Int → Int → Int) (onFloats : Float → Float → Float) (a b : Quantity) :
    Quantity :=
  onNumbers a b <|
    match a, b with
    | .whole m, .whole n => .whole (onInts m n)
    | _, _ =>
      match a.toFloat, b.toFloat with
      | .ok x, .ok y => .double (onFloats x y)
      | .error fault, _ | _, .error fault => .failed fault

/-- Compares exactly, also a whole number with a double. -/
def isBelow : Quantity → Quantity → Bool
  | .whole a, .whole b => a < b
  | .double a, .double b => a < b
  | .whole a, .double b => Binary64.compareInt? a b == some .lt
  | .double a, .whole b => Binary64.compareInt? b a == some .gt
  | _, _ => false

/-- At least: nothing is, if an undefined double is involved. -/
def isAtLeast : Quantity → Quantity → Bool
  | .whole a, .whole b => b ≤ a
  | .double a, .double b => b ≤ a
  | .whole a, .double b =>
    Binary64.compareInt? a b == some .gt || Binary64.compareInt? a b == some .eq
  | .double a, .whole b =>
    Binary64.compareInt? b a == some .lt || Binary64.compareInt? b a == some .eq
  | _, _ => false

def add : Quantity → Quantity → Quantity := combine (· + ·) (· + ·)

def sub : Quantity → Quantity → Quantity := combine (· - ·) (· - ·)

def mul : Quantity → Quantity → Quantity := combine (· * ·) (· * ·)

def ofValue : Value → Quantity
  | .bool b => .whole (if b then 1 else 0)
  | .int n => .whole n
  | .float x => .double x
  | _ => .odd

def toValue : Quantity → Except ValueFault Value
  | .whole n => .ok (.int n)
  | .double x => .ok (.float x)
  | .odd => .error notANumber
  | .failed fault => .error fault

/-- Goes on unless counting has failed. -/
def check : Quantity → Except ValueFault Unit
  | .failed fault => .error fault
  | _ => .ok ()

/-- The nearest whole number, a tie going to the even one. -/
def nearestWhole : Quantity → Except ValueFault Int
  | .whole n => .ok n
  | .double x =>
    match Binary64.roundToInt? x with
    | some n => .ok n
    | none => Value.whole (.float x)
  | .odd => .error notANumber
  | .failed fault => .error fault

end Quantity

namespace Value

/-- Farther out than any number of files, lines or characters. -/
def farOut : Int := 1000000000000000000000

/-- The greatest whole number up to a number. No number is above an undefined double. -/
def greatestUpTo : Value → Except ValueFault Int
  | .float x =>
    if x.isNaN then .ok farOut
    else if x.isInf then .ok (if x > 0.0 then farOut else -farOut)
    else
      let cut := asInt (.float x)
      .ok (if Binary64.compareInt? cut x == some .gt then cut - 1 else cut)
  | v => v.position

/-- The least whole number from a number on. No number is below an undefined double. -/
def leastFrom : Value → Except ValueFault Int
  | .float x =>
    if x.isNaN then .ok (-farOut)
    else if x.isInf then .ok (if x > 0.0 then farOut else -farOut)
    else
      let cut := asInt (.float x)
      .ok (if Binary64.compareInt? cut x == some .lt then cut + 1 else cut)
  | v => v.position

/-- The whole number that divides the same whole numbers as a number; zero unless it is positive. A
fraction in lowest terms divides what its numerator divides. -/
def period : Value → Except ValueFault Int
  | .int n => .ok n
  | .bool b => .ok (asInt (.bool b))
  | .float x =>
    match Binary64.parts? x with
    | some p =>
      let (numerator, denominator) := Binary64.scaleFraction p.significand p.exponent
      .ok (if p.negative then 0 else ((numerator / numerator.gcd denominator : Nat) : Int))
    | none => .ok 0
  | other => .error (.wrongKind
      ("'>' not supported between instances of '" ++ other.kindName ++ "' and 'int'"))

def isMultipleOf (n : Int) : Value → Except ValueFault Bool
  | .str _ => .error (.wrongKind "not all arguments converted during string formatting")
  | v =>
    if v.isNumber then .ok (compareNumbers? (.int v.asInt) v == some .eq && v.asInt % n == 0)
    else .error (.wrongKind ("unsupported operand type(s) for %: '" ++ v.kindName ++ "' and 'int'"))

end Value

end Surveyor
