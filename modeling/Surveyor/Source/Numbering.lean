import Surveyor.Value.Quantity

/-! # Numbering lines from any number

The lines of a text are counted from one. Where the text is a part of something else, its first line
has another number there, and all lines of a record move with it.
-/

namespace Surveyor

def lineFrom (first : Quantity) (line : Int) : Except ValueFault Value :=
  ((Quantity.whole line).add (first.sub (.whole 1))).toValue

def renumberLine (first : Quantity) : Value → Except ValueFault Value
  | .int line => lineFrom first line
  | other => .ok other

mutual

/-- A record with the lines in it numbered from `first`. -/
def renumber (first : Quantity) : Value → Except ValueFault Value
  | .list items => do return .list (← renumberItems first items)
  | .map entries => do return .map (← renumberEntries first entries)
  | other => .ok other

def renumberItems (first : Quantity) : List Value → Except ValueFault (List Value)
  | [] => .ok []
  | item :: rest => do return (← renumber first item) :: (← renumberItems first rest)

def renumberEntries (first : Quantity) :
    List (String × Value) → Except ValueFault (List (String × Value))
  | [] => .ok []
  | (key, value) :: rest => do
    let value ← if key == "line" then renumberLine first value else renumber first value
    return (key, value) :: (← renumberEntries first rest)

end

end Surveyor
