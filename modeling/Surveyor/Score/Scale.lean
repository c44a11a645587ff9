import Surveyor.Value.Quantity

/-! # Numbers that scores are counted in

`Scale` names the operations a scorecard needs. Published scores are counted in `Quantity`; a weight
that is no number makes what is counted with it fail.
-/

namespace Surveyor

class Scale (α : Type) where
  ofNat : Nat → α
  /-- The decimal `digits / 10 ^ places`. -/
  decimal : (digits places : Nat) → α
  add : α → α → α
  sub : α → α → α
  mul : α → α → α
  /-- The smaller of two; the first of equal ones. -/
  least : α → α → α
  /-- The larger of two; the first of equal ones. -/
  greatest : α → α → α
  /-- Is the first at least the second? -/
  atLeast : α → α → Bool
  isZero : α → Bool
  /-- Rounds to a number of decimal places, a tie going to the even last place. -/
  round : Nat → α → α

namespace Quantity

instance : Scale Quantity where
  ofNat n := .whole n
  decimal digits places := .double (Binary64.nearest digits (pow10 places))
  add := Quantity.add
  sub := Quantity.sub
  mul := Quantity.mul
  least a b := onNumbers a b (if isBelow b a then b else a)
  greatest a b := onNumbers a b (if isBelow a b then b else a)
  atLeast := isAtLeast
  isZero
    | .whole n => n == 0
    | .double x => x == 0.0
    | _ => false
  round places
    | .double x => .double (Binary64.roundPlaces places x)
    | other => other

end Quantity

end Surveyor
