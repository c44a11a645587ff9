import Surveyor.Pattern.Basic

/-! # Finding patterns in texts

`Pattern.findAll` lists the matches from left to right, each search starting where the last match
ended.
-/

namespace Surveyor

structure Match where
  start : Nat
  stop : Nat
  captures : Captures

namespace Match

/-- Where the group was matched last, if it took part. -/
def span? (m : Match) (group : Nat) : Option (Nat × Nat) := m.captures.lookup group

/-- The start of a group, or of the whole match if the group took no part. -/
def groupStart (m : Match) (group : Nat) : Nat := ((m.span? group).map (·.1)).getD m.start

/-- The text of a group that took part. -/
def group? (text : Text) (m : Match) (group : Nat) : Option String :=
  (m.span? group).map fun (start, stop) => text.slice start stop

def groupText (text : Text) (m : Match) (group : Nat) : String := (group? text m group).getD ""

/-- Did the group take part with at least one character? -/
def hasGroup (m : Match) (group : Nat) : Bool :=
  match m.span? group with
  | some (start, stop) => start < stop
  | none => false

end Match

namespace Pattern

/-- The best match that starts at `i`. -/
def matchAt? (p : Pattern) (s : Subject) (i : Nat) : Option Match :=
  p.run s i [] fun j caps => some ⟨i, j, caps⟩

def findFrom? (p : Pattern) (s : Subject) : Nat → Nat → Option Match
  | 0, _ => none
  | fuel + 1, i =>
    match p.matchAt? s i with
    | some m => some m
    | none => findFrom? p s fuel (i + 1)

def find? (p : Pattern) (s : Subject) : Option Match := p.findFrom? s (s.stop + 1) 0

def occursIn (p : Pattern) (s : Subject) : Bool := (p.find? s).isSome

def matchesAt (p : Pattern) (s : Subject) (i : Nat) : Bool := (p.matchAt? s i).isSome

/-- Gathers matches from the offset `i` on; after a match the search goes on at its end. -/
def gather (p : Pattern) (s : Subject) : Nat → Nat → Array Match → Array Match
  | 0, _, found => found
  | fuel + 1, i, found =>
    if s.stop < i then found
    else
      match p.matchAt? s i with
      | some m => gather p s fuel (if i < m.stop then m.stop else i + 1) (found.push m)
      | none => gather p s fuel (i + 1) found

def findAllFrom (p : Pattern) (s : Subject) (start : Nat) : List Match :=
  (p.gather s (s.stop + 1 - start) start #[]).toList

def findAll (p : Pattern) (s : Subject) : List Match := p.findAllFrom s 0

/-- The parts of the text between the matches. -/
def splitBy (p : Pattern) (text : Text) : List String :=
  let found := p.findAll (Subject.ofText text)
  let starts := 0 :: found.map (·.stop)
  let stops := found.map (·.start) ++ [text.size]
  (starts.zip stops).map fun (start, stop) => text.slice start stop

end Pattern

end Surveyor
