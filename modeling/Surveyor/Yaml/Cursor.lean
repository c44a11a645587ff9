import Surveyor.Text.Basic

/-! # A place in a YAML text

A `Cursor` walks over a text and keeps the line and the column it is in. Beyond the end of the text
it sees the character NUL, which a text itself never holds. Texts have plain newlines.
-/

namespace Surveyor.Yaml

inductive YamlError where
  /-- The text is not well formed, or names a tag that is not known. -/
  | malformed
  /-- A scalar has the form of a value that does not exist. -/
  | impossible (reason : String)
  /-- A truth value is asked for that is none. -/
  | unknownWord (word : String)
  /-- A number is asked for where nothing is written. -/
  | emptyNumber
  /-- A time is asked for where none is written. -/
  | noTimestamp
  /-- A time is asked for where a mapping stands for a scalar. -/
  | timestampOfMapping
  /-- A number goes beyond what can be counted with. -/
  | tooLarge (reason : String)
  /-- A scalar stands for itself. -/
  | circular
  deriving DecidableEq, Repr

/-! ## Classes of characters -/

def isEnd (c : Char) : Bool := c.toNat == 0

def isBreak (c : Char) : Bool :=
  c == '\n' || c.toNat == 0x85 || c.toNat == 0x2028 || c.toNat == 0x2029

def endsLine (c : Char) : Bool := isEnd c || isBreak c

def endsName (c : Char) : Bool := c == ' ' || endsLine c

def endsWord (c : Char) : Bool := c == '\t' || endsName c

def isSpaceOrTab (c : Char) : Bool := c == ' ' || c == '\t'

def isNameChar (c : Char) : Bool := c.isAlphanum || c == '-' || c == '_'

def isHex (c : Char) : Bool :=
  c.isDigit || ('a' ≤ c && c ≤ 'f') || ('A' ≤ c && c ≤ 'F')

def byteOrderMark : Char := Char.ofNat 0xfeff

def isAllowed (c : Char) : Bool :=
  let n := c.toNat
  n == 0x09 || n == 0x0a || n == 0x0d || (0x20 ≤ n && n ≤ 0x7e) || n == 0x85
    || (0xa0 ≤ n && n ≤ 0xd7ff) || (0xe000 ≤ n && n ≤ 0xfffd) || 0x10000 ≤ n

/-! ## Cursors -/

structure Cursor where
  pos : Nat
  line : Nat
  column : Nat
  deriving DecidableEq, Repr

def charAt (t : Text) (i : Nat) : Char := t.getD i (Char.ofNat 0)

namespace Cursor

def start : Cursor := ⟨0, 0, 0⟩

def peek (t : Text) (c : Cursor) : Char := charAt t c.pos

def ahead (t : Text) (c : Cursor) (n : Nat) : Char := charAt t (c.pos + n)

/-- Passes one character; a byte order mark takes no column. -/
def next (t : Text) (c : Cursor) : Cursor :=
  let ch := c.peek t
  if isBreak ch then ⟨c.pos + 1, c.line + 1, 0⟩
  else if ch == byteOrderMark then { c with pos := c.pos + 1 }
  else { c with pos := c.pos + 1, column := c.column + 1 }

def skip (t : Text) : Nat → Cursor → Cursor
  | 0, c => c
  | n + 1, c => skip t n (c.next t)

def passWhile (t : Text) (p : Char → Bool) : Nat → Cursor → Cursor
  | 0, c => c
  | fuel + 1, c => if p (c.peek t) then passWhile t p fuel (c.next t) else c

/-- Passes the characters of a class, none of which is NUL. -/
def skipWhile (t : Text) (p : Char → Bool) (c : Cursor) : Cursor :=
  passWhile t (fun ch => p ch && !isEnd ch) (t.size - c.pos) c

def skipSpaces (t : Text) (c : Cursor) : Cursor := c.skipWhile t (· == ' ')

def skipLine (t : Text) (c : Cursor) : Cursor := c.skipWhile t (!isBreak ·)

def between (t : Text) (first last : Cursor) : List Char := (t.extract first.pos last.pos).toList

/-- Passes a break, which counts as a newline unless it separates lines or paragraphs. -/
def lineBreak? (t : Text) (c : Cursor) : Option (Char × Cursor) :=
  let ch := c.peek t
  if ch == '\n' || ch.toNat == 0x85 then some ('\n', c.next t)
  else if isBreak ch then some (ch, c.next t)
  else none

/-- Is one of the marks between documents here? -/
def atSeparator (t : Text) (c : Cursor) : Bool :=
  let three := [c.peek t, c.ahead t 1, c.ahead t 2]
  (three == ['-', '-', '-'] || three == ['.', '.', '.']) && endsWord (c.ahead t 3)

/-- Passes the rest of a line on which only blanks and a comment may stand. -/
def emptyRest? (t : Text) (c : Cursor) : Option Cursor :=
  let c := c.skipSpaces t
  let c := if c.peek t == '#' then c.skipLine t else c
  if endsLine (c.peek t) then some (((c.lineBreak? t).map (·.2)).getD c) else none

end Cursor

end Surveyor.Yaml
