import Surveyor.Text.Basic

/-! # Line numbers of offsets -/

namespace Surveyor

/-- The offsets at which the lines of a text start, and the number of its first line. -/
structure LineIndex where
  starts : Array Nat
  firstLine : Int

namespace LineIndex

/-- The start of every line: zero, and the offset after every newline. -/
def lineStarts (t : Text) : Array Nat :=
  (t.foldl
    (fun (starts, i) c => if c == '\n' then (starts.push (i + 1), i + 1) else (starts, i + 1))
    (#[0], 0)).1

def ofText (t : Text) (firstLine : Int) : LineIndex := ⟨lineStarts t, firstLine⟩

/-- How many of the ascending numbers between the indices `low` and `high` are at most `position`,
with `low` for those before: bisection. -/
def countUpTo (starts : Array Nat) (position : Int) : Nat → Nat → Nat → Nat
  | 0, low, _ => low
  | fuel + 1, low, high =>
    if low < high then
      let middle := (low + high) / 2
      if ((starts[middle]?.getD 0 : Nat) : Int) ≤ position then
        countUpTo starts position fuel (middle + 1) high
      else countUpTo starts position fuel low middle
    else low

def lineOf (index : LineIndex) (position : Int) : Int :=
  (countUpTo index.starts position index.starts.size 0 index.starts.size : Int)
    + index.firstLine - 1

end LineIndex

def textLines (t : Text) : List (List Char) := Text.splitChars '\n' t.toList

end Surveyor
