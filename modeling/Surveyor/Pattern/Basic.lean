import Surveyor.Text.Alphanumeric
import Surveyor.Text.Basic
import Surveyor.Text.LowerCase

/-! # Patterns

A `Pattern` describes stretches of a text. Alternatives are ordered: the left one is preferred, a
repetition prefers more characters (`greedy`) or fewer (`lazy`), and a later failure makes an
earlier choice give way. `Pattern.run` hands every way of matching, best first, to a continuation
and returns the first answer it gives; it is structural in the pattern, so every pattern terminates
on every text.

A text may be matched only up to an offset (`Subject.stop`), which then counts as its end; the
characters before the start of a match are always visible to boundary conditions.
-/

namespace Surveyor

/-- A text together with the offset that counts as its end. -/
structure Subject where
  text : Text
  stop : Nat

namespace Subject

def ofText (text : Text) : Subject := ⟨text, text.size⟩

def ofString (s : String) : Subject := ofText (Text.ofString s)

def upTo (text : Text) (stop : Nat) : Subject := ⟨text, min stop text.size⟩

def has (s : Subject) (p : Char → Bool) (i : Nat) : Bool :=
  if i < s.stop then
    if h : i < s.text.size then p s.text[i] else false
  else false

def hasBefore (s : Subject) (p : Char → Bool) : Nat → Bool
  | 0 => false
  | i + 1 => s.has p i

/-- The end of the longest run of characters of the class from `i`, at most `fuel` of them. -/
def runEnd (s : Subject) (p : Char → Bool) : Nat → Nat → Nat
  | 0, i => i
  | fuel + 1, i => if s.has p i then runEnd s p fuel (i + 1) else i

def literalEnd? (s : Subject) (same : Char → Char → Bool) : List Char → Nat → Option Nat
  | [], i => some i
  | c :: rest, i => if s.has (same c) i then literalEnd? s same rest (i + 1) else none

/-- The ends, last first, of the stretches from `i` that hold characters of the class and
parenthesised runs of such characters. -/
def argumentEnds (s : Subject) (p : Char → Bool) : Nat → Nat → List Nat → List Nat
  | 0, i, ends => i :: ends
  | fuel + 1, i, ends =>
    if s.has p i then argumentEnds s p fuel (i + 1) (i :: ends)
    else if s.has (· == '(') i then
      let close := s.runEnd p fuel (i + 1)
      if s.has (· == ')') close then argumentEnds s p fuel (close + 1) (i :: ends)
      else i :: ends
    else i :: ends

end Subject

/-- The stretches recorded by the groups of a match, latest first: group, start and stop. -/
abbrev Captures := List (Nat × Nat × Nat)

inductive Pattern where
  /-- The empty stretch. -/
  | empty
  /-- One character of a class. -/
  | one (p : Char → Bool)
  /-- As many characters of a class as possible, at least `least`. -/
  | greedy (p : Char → Bool) (least : Nat)
  /-- As few characters of a class as possible, at least `least`. -/
  | lazy (p : Char → Bool) (least : Nat)
  /-- Fixed characters, compared by `same`. -/
  | literal (same : Char → Char → Bool) (chars : List Char)
  /-- Characters of a class with one level of parentheses around others of them, as many as
  possible. -/
  | arguments (p : Char → Bool)
  /-- The empty stretch where a condition on the offset holds. -/
  | where_ (holds : Subject → Nat → Bool)
  /-- The empty stretch where the pattern does not match. -/
  | absent (p : Pattern)
  | seq (first second : Pattern)
  | alt (preferred other : Pattern)
  /-- As many repetitions as possible, none included; one that consumes nothing is not made. -/
  | star (p : Pattern)
  /-- The stretch of `p`, recorded under a number. -/
  | group (index : Nat) (p : Pattern)

/-- Tries the offsets `low + n`, …, `low` in this order. -/
def giveBack {α : Type} (k : Nat → Option α) (low : Nat) : Nat → Option α
  | 0 => k low
  | n + 1 =>
    match k (low + (n + 1)) with
    | some answer => some answer
    | none => giveBack k low n

/-- Tries the offsets from `i` on as long as characters of the class are passed, at most `fuel`. -/
def takeMore {α : Type} (s : Subject) (p : Char → Bool) (k : Nat → Option α) : Nat → Nat → Option α
  | 0, i => k i
  | fuel + 1, i =>
    match k i with
    | some answer => some answer
    | none => if s.has p i then takeMore s p k fuel (i + 1) else none

/-- Repeats `body` from `i`, more repetitions before fewer, at most `fuel` of them. -/
def repeatBody {α : Type} (body : Nat → Captures → (Nat → Captures → Option α) → Option α)
    (k : Nat → Captures → Option α) : Nat → Nat → Captures → Option α
  | 0, i, caps => k i caps
  | fuel + 1, i, caps =>
    match body i caps fun j caps' => if i < j then repeatBody body k fuel j caps' else none with
    | some answer => some answer
    | none => k i caps

namespace Pattern

/-- The first answer of `k` on the ways, best first, in which the pattern matches from `i`. -/
def run {α : Type} (s : Subject) : Pattern → Nat → Captures → (Nat → Captures → Option α) → Option α
  | .empty, i, caps, k => k i caps
  | .one p, i, caps, k => if s.has p i then k (i + 1) caps else none
  | .greedy p least, i, caps, k =>
    let top := s.runEnd p (s.stop - i) i
    if i + least ≤ top then giveBack (fun j => k j caps) (i + least) (top - (i + least)) else none
  | .lazy p least, i, caps, k =>
    if i + least ≤ s.runEnd p least i then
      takeMore s p (fun j => k j caps) (s.stop - (i + least)) (i + least)
    else none
  | .literal same chars, i, caps, k =>
    match s.literalEnd? same chars i with
    | some j => k j caps
    | none => none
  | .arguments p, i, caps, k =>
    (s.argumentEnds p (s.stop - i) i []).findSome? fun j => k j caps
  | .where_ holds, i, caps, k => if holds s i then k i caps else none
  | .absent p, i, caps, k =>
    match run s p i caps fun j _ => some j with
    | some _ => none
    | none => k i caps
  | .seq first second, i, caps, k => run s first i caps fun j caps' => run s second j caps' k
  | .alt preferred other, i, caps, k =>
    match run s preferred i caps k with
    | some answer => some answer
    | none => run s other i caps k
  | .star p, i, caps, k =>
    repeatBody (fun j caps' k' => run s p j caps' k') k (s.stop - i) i caps
  | .group index p, i, caps, k => run s p i caps fun j caps' => k j ((index, i, j) :: caps')

/-! ## Ways to write patterns -/

/-- One pattern after the other, nested to the right so that a failure of the first piece is found
before anything else is prepared. -/
def followedBy : Pattern → Pattern → Pattern
  | .seq first second, last => .seq first (followedBy second last)
  | first, last => .seq first last

instance : Append Pattern := ⟨followedBy⟩

instance : OrElse Pattern := ⟨fun preferred other => .alt preferred (other ())⟩

def lit (s : String) : Pattern := .literal (fun a b => a == b) s.toList

/-- Fixed text without regard to case. -/
def caseless (s : String) : Pattern := .literal caselessEq s.toList

/-- Any of several patterns, the earlier the better. -/
def anyOf : List Pattern → Pattern
  | [] => .absent .empty
  | [p] => p
  | p :: rest => .alt p (anyOf rest)

def words (choices : List String) : Pattern := anyOf (choices.map lit)

def opt (p : Pattern) : Pattern := .alt p .empty

def plus (p : Pattern) : Pattern := .seq p (.star p)

def next (p : Char → Bool) : Pattern := .where_ fun s i => s.has p i

/-- The next character is not of the class, or there is none. -/
def notNext (p : Char → Bool) : Pattern := .where_ fun s i => !s.has p i

def after (p : Char → Bool) : Pattern := .where_ fun s i => s.hasBefore p i

/-- The character before is not of the class, or there is none. -/
def notAfter (p : Char → Bool) : Pattern := .where_ fun s i => !s.hasBefore p i

/-- Between a word character and something else. -/
def wordEdge : Pattern := .where_ fun s i => s.hasBefore isWordChar i != s.has isWordChar i

/-- At the start of the text or just after a newline. -/
def lineStart : Pattern := .where_ fun s i => i == 0 || s.hasBefore (· == '\n') i

def textStart : Pattern := .where_ fun _ i => i == 0

/-- At the end of the text, or just before a newline that ends it. -/
def textEnd : Pattern :=
  .where_ fun s i => i == s.stop || (i + 1 == s.stop && s.has (· == '\n') i)

end Pattern

end Surveyor
