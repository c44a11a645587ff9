import Surveyor.Text.Basic

/-! # Blocks in braces

Blocks are found by counting braces; quotes and comments are not looked at. A block that is never
closed reaches to the end of the text.
-/

namespace Surveyor

def braceStep (c : Char) : Int :=
  if c == '{' then 1 else if c == '}' then -1 else 0

def braceDepth (t : Text) : Int := t.foldl (fun depth c => depth + braceStep c) 0

/-- The depth gained between two indices, which may count from the back. -/
def depthBetween (t : Text) (start stop : Int) : Int := braceDepth (t.between start stop)

/-- Looks for the brace that brings the depth back to zero, from `i` on. -/
def closingFrom (t : Text) : Nat → Nat → Int → Nat
  | 0, _, _ => t.size
  | fuel + 1, i, depth =>
    match t[i]? with
    | none => t.size
    | some c =>
      let depth := depth + braceStep c
      if c == '}' && depth == 0 then i + 1 else closingFrom t fuel (i + 1) depth

/-- The offset just past the brace that closes the one at `opening`. -/
def blockEnd (t : Text) (opening : Nat) : Nat := closingFrom t (t.size - opening) opening 0

/-- The end of the block at an index. An index that counts from the back of the text starts the scan
there, and the text follows once more; the end then counts from the same place. There is nothing
before the front of the text. -/
def blockEndFrom? (t : Text) (opening : Int) : Option Int :=
  if opening + t.size < 0 then none
  else if opening < 0 then
    let around := t.extract (Text.clampIndex t.size opening) t.size ++ t
    some (opening + closingFrom around around.size 0 0)
  else some (blockEnd t opening.toNat)

/-- The block at an index, which may count from the back of the text. -/
def blockText? (t : Text) (opening : Int) : Option Text := do
  return t.between opening (← blockEndFrom? t opening)

/-- The class headers of a text, in ascending order of their offsets. -/
structure ClassScope where
  text : Text
  headers : List Int

namespace ClassScope

def ofHeaders (text : Text) (headers : List Int) : ClassScope :=
  ⟨text, headers.mergeSort fun a b => decide (a ≤ b)⟩

def lastHeader? (scope : ClassScope) (position : Int) : Option Int :=
  (scope.headers.takeWhile (· ≤ position)).getLast?

/-- Are the braces opened since the last header before the position still unbalanced? -/
def contains (scope : ClassScope) (position : Int) : Bool :=
  match scope.lastHeader? position with
  | none => false
  | some header => depthBetween scope.text header position > 0

end ClassScope

end Surveyor
