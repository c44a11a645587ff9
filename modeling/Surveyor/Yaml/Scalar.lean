import Surveyor.Json.Reader
import Surveyor.Yaml.Cursor

/-! # Scalars of a YAML text

Plain, quoted and block scalars. Every function takes the place where a scalar starts and gives its
text and the place after it.
-/

namespace Surveyor.Yaml

/-! ## Plain scalars -/

structure Gap where
  text : List Char
  /-- A line was broken, so that a key may follow. -/
  isBroken : Bool
  after : Cursor

/-- The further breaks of a gap; nothing if a mark between documents follows. -/
def gapBreaks (t : Text) : Nat → Cursor → List Char → Option (List Char) × Cursor
  | 0, c, found => (some found.reverse, c)
  | fuel + 1, c, found =>
    if c.peek t == ' ' then gapBreaks t fuel (c.next t) found
    else
      match c.lineBreak? t with
      | none => (some found.reverse, c)
      | some (ch, c) => if c.atSeparator t then (none, c) else gapBreaks t fuel c (ch :: found)

/-- A first break counts as a space unless further ones follow. -/
def foldBreaks (first : Char) (further : List Char) : List Char :=
  if first != '\n' then first :: further
  else if further.isEmpty then [' ']
  else further

def plainGap (t : Text) (c : Cursor) : Gap :=
  let afterSpaces := c.skipSpaces t
  match afterSpaces.lineBreak? t with
  | none => ⟨c.between t afterSpaces, false, afterSpaces⟩
  | some (first, next) =>
    if next.atSeparator t then ⟨[], true, next⟩
    else
      match gapBreaks t (t.size + 1) next [] with
      | (some further, c) => ⟨foldBreaks first further, true, c⟩
      | (none, c) => ⟨[], true, c⟩

def endsPlain (t : Text) (inFlow : Bool) (c : Cursor) : Bool :=
  let ch := c.peek t
  let after := c.ahead t 1
  endsWord ch
    || (ch == ':' && (endsWord after || (inFlow && [',', '[', ']', '{', '}'].contains after)))
    || (inFlow && [',', '?', '[', ']', '{', '}'].contains ch)

def plainPart (t : Text) (inFlow : Bool) : Nat → Cursor → Cursor
  | 0, c => c
  | fuel + 1, c => if endsPlain t inFlow c then c else plainPart t inFlow fuel (c.next t)

/-- A scalar that was read: its text, the place after it, and whether a key may follow. -/
structure ScalarText where
  text : List Char
  after : Cursor
  allowsKey : Bool

/-- Reads the parts of a plain scalar; `text` and `gap` are what was read and the blanks after it. -/
def plainParts (t : Text) (inFlow : Bool) (indent : Int) :
    Nat → Cursor → Text → List Char → Bool → ScalarText
  | 0, c, text, _, allowsKey => ⟨text.toList, c, allowsKey⟩
  | fuel + 1, c, text, gap, allowsKey =>
    if c.peek t == '#' then ⟨text.toList, c, allowsKey⟩
    else
      let stop := plainPart t inFlow (t.size + 1) c
      if stop.pos == c.pos then ⟨text.toList, c, allowsKey⟩
      else
        let text := text ++ gap ++ c.between t stop
        let space := plainGap t stop
        if space.text.isEmpty || space.after.peek t == '#'
            || (!inFlow && (space.after.column : Int) < indent) then
          ⟨text.toList, space.after, space.isBroken⟩
        else plainParts t inFlow indent fuel space.after text space.text space.isBroken

def plainScalar (t : Text) (inFlow : Bool) (indent : Int) (c : Cursor) : ScalarText :=
  plainParts t inFlow (indent + 1) (t.size + 1) c #[] [] false

/-! ## Quoted scalars -/

/-- The breaks inside a quoted scalar, and the blanks around them. -/
def quotedBreaks (t : Text) : Nat → Cursor → List Char → Except YamlError (List Char × Cursor)
  | 0, _, _ => .error .malformed
  | fuel + 1, c, found =>
    if c.atSeparator t then .error .malformed
    else
      let c := c.skipWhile t isSpaceOrTab
      match c.lineBreak? t with
      | some (ch, c) => quotedBreaks t fuel c (ch :: found)
      | none => .ok (found.reverse, c)

def quotedGap (t : Text) (c : Cursor) : Except YamlError (List Char × Cursor) :=
  let after := c.skipWhile t isSpaceOrTab
  if isEnd (after.peek t) then .error .malformed
  else
    match after.lineBreak? t with
    | none => .ok (c.between t after, after)
    | some (first, next) => do
      let (further, c) ← quotedBreaks t (t.size + 1) next []
      return (foldBreaks first further, c)

def escapedChar? (c : Char) : Option Char :=
  match c with
  | '0' => some (Char.ofNat 0)
  | 'a' => some (Char.ofNat 7)
  | 'b' => some (Char.ofNat 8)
  | 't' | '\t' => some '\t'
  | 'n' => some '\n'
  | 'v' => some (Char.ofNat 11)
  | 'f' => some (Char.ofNat 12)
  | 'r' => some '\r'
  | 'e' => some (Char.ofNat 27)
  | ' ' => some ' '
  | '"' => some '"'
  | '\\' => some '\\'
  | '/' => some '/'
  | 'N' => some (Char.ofNat 0x85)
  | '_' => some (Char.ofNat 0xa0)
  | 'L' => some (Char.ofNat 0x2028)
  | 'P' => some (Char.ofNat 0x2029)
  | _ => none

def codeLength? (c : Char) : Option Nat :=
  match c with
  | 'x' => some 2
  | 'u' => some 4
  | 'U' => some 8
  | _ => none

def hexNumber (digits : List Char) : Nat :=
  digits.foldl (fun n c => n * 16 + (Json.hexValue? c).getD 0) 0

def codeChar (code : Nat) : Except YamlError Char :=
  if 0x80000000 ≤ code then .error (.tooLarge "code of a character too large")
  else if 0x110000 ≤ code then .error (.impossible "chr() arg not in range(0x110000)")
  else .ok (Surrogate.charOf code)

def codeHere? (t : Text) (c : Cursor) (length : Nat) : Option (Nat × Cursor) :=
  let last := c.skip t length
  let digits := c.between t last
  if digits.length == length && digits.all isHex then some (hexNumber digits, last) else none

/-- The second half of a surrogate pair, if it is escaped here. -/
def lowHalf? (t : Text) (c : Cursor) : Option (Nat × Cursor) := do
  guard (c.peek t == '\\')
  let length ← codeLength? (c.ahead t 1)
  let (code, after) ← codeHere? t (c.skip t 2) length
  guard (Surrogate.isLow code)
  return (code, after)

/-- What stands after a backslash. Two halves of a surrogate pair are one character. -/
def escapeAfter (t : Text) (c : Cursor) : Except YamlError (List Char × Cursor) :=
  let ch := c.peek t
  match escapedChar? ch, codeLength? ch with
  | some plain, _ => .ok ([plain], c.next t)
  | none, some length =>
    match codeHere? t (c.next t) length with
    | none => .error .malformed
    | some (code, after) =>
      match if Surrogate.isHigh code then lowHalf? t after else none with
      | some (low, after) => .ok ([Surrogate.join code low], after)
      | none => do return ([← codeChar code], after)
  | none, none =>
    match c.lineBreak? t with
    | some (_, next) => quotedBreaks t (t.size + 1) next []
    | none => .error .malformed

def isQuotedPlain (c : Char) : Bool :=
  !(c == '\'' || c == '"' || c == '\\' || endsWord c)

/-- Reads a quoted scalar after its opening quote. -/
def quotedParts (t : Text) (isDouble : Bool) :
    Nat → Cursor → Text → Except YamlError (List Char × Cursor)
  | 0, _, _ => .error .malformed
  | fuel + 1, c, text =>
    let stop := c.skipWhile t isQuotedPlain
    let text := text ++ c.between t stop
    let ch := stop.peek t
    if !isDouble && ch == '\'' then
      if stop.ahead t 1 == '\'' then quotedParts t isDouble fuel (stop.skip t 2) (text.push '\'')
      else .ok (text.toList, stop.next t)
    else if isDouble && ch == '"' then .ok (text.toList, stop.next t)
    else if isDouble && ch == '\\' then do
      let (escaped, after) ← escapeAfter t (stop.next t)
      quotedParts t isDouble fuel after (text ++ escaped)
    else if ch == '\'' || ch == '"' || ch == '\\' then
      quotedParts t isDouble fuel (stop.next t) (text.push ch)
    else do
      let (gap, after) ← quotedGap t stop
      quotedParts t isDouble fuel after (text ++ gap)

/-- A quoted scalar whose opening quote is here. -/
def quotedScalar (t : Text) (c : Cursor) : Except YamlError (List Char × Cursor) :=
  quotedParts t (c.peek t == '"') (t.size + 1) (c.next t) #[]

/-! ## Block scalars -/

/-- What becomes of the breaks at the end of a block scalar. -/
inductive Chomping where
  | clip
  | strip
  | keep
  deriving DecidableEq, Repr

def chomping? (c : Char) : Option Chomping :=
  if c == '+' then some .keep else if c == '-' then some .strip else none

def increment? (c : Char) : Option Nat := if c.isDigit then some (c.toNat - '0'.toNat) else none

/-- The two indicators after the mark of a block scalar, in either order. -/
def blockIndicators (t : Text) (c : Cursor) :
    Except YamlError (Chomping × Option Nat × Cursor) :=
  let (chomping, increment, after) :=
    match chomping? (c.peek t) with
    | some chomping =>
      let next := c.next t
      match increment? (next.peek t) with
      | some n => (chomping, some n, next.next t)
      | none => (chomping, none, next)
    | none =>
      match increment? (c.peek t) with
      | some n =>
        let next := c.next t
        match chomping? (next.peek t) with
        | some chomping => (chomping, some n, next.next t)
        | none => (.clip, some n, next)
      | none => (.clip, none, c)
  if increment == some 0 || !endsName (after.peek t) then .error .malformed
  else .ok (chomping, increment, after)

/-- Blanks and breaks before a block scalar whose indentation is not given: the breaks, and the
deepest column reached. -/
def blockLead (t : Text) : Nat → Cursor → List Char → Nat → List Char × Nat × Cursor
  | 0, c, found, deepest => (found.reverse, deepest, c)
  | fuel + 1, c, found, deepest =>
    if c.peek t == ' ' then
      let c := c.next t
      blockLead t fuel c found (max deepest c.column)
    else
      match c.lineBreak? t with
      | some (ch, c) => blockLead t fuel c (ch :: found) deepest
      | none => (found.reverse, deepest, c)

def indentTo (t : Text) (column : Nat) (c : Cursor) : Cursor :=
  Cursor.passWhile t (· == ' ') (column - c.column) c

/-- Empty lines inside a block scalar, and the indentation of the next one. -/
def blockBreaks (t : Text) (indent : Nat) : Nat → Cursor → List Char → List Char × Cursor
  | 0, c, found => (found.reverse, c)
  | fuel + 1, c, found =>
    let c := indentTo t indent c
    match c.lineBreak? t with
    | some (ch, c) => blockBreaks t indent fuel c (ch :: found)
    | none => (found.reverse, c)

/-- The lines of a block scalar: text, last break, breaks after it. -/
def blockLines (t : Text) (folded : Bool) (indent : Nat) :
    Nat → Cursor → Text → List Char → List Char → Text × List Char × List Char × Cursor
  | 0, c, text, lastBreak, breaks => (text, lastBreak, breaks, c)
  | fuel + 1, c, text, lastBreak, breaks =>
    if c.column == indent && !isEnd (c.peek t) then
      let leadsFlush := !isSpaceOrTab (c.peek t)
      let stop := c.skipLine t
      let text := text ++ breaks ++ c.between t stop
      let (lastBreak, next) := match stop.lineBreak? t with
        | some (ch, next) => ([ch], next)
        | none => ([], stop)
      let (breaks, next) := blockBreaks t indent (t.size + 1) next []
      if next.column == indent && !isEnd (next.peek t) then
        let joint :=
          if folded && lastBreak == ['\n'] && leadsFlush && !isSpaceOrTab (next.peek t) then
            if breaks.isEmpty then [' '] else []
          else lastBreak
        blockLines t folded indent fuel next (text ++ joint) lastBreak breaks
      else (text, lastBreak, breaks, next)
    else (text, lastBreak, breaks, c)

def blockScalar (t : Text) (parentIndent : Int) (c : Cursor) :
    Except YamlError (List Char × Cursor) := do
  let folded := c.peek t == '>'
  let (chomping, increment, after) ← blockIndicators t (c.next t)
  let some body := after.emptyRest? t | .error .malformed
  let least := (max (parentIndent + 1) 1).toNat
  let (indent, breaks, first) := match increment with
    | none =>
      let (breaks, deepest, c) := blockLead t (t.size + 1) body [] 0
      (max least deepest, breaks, c)
    | some n =>
      let indent := least + n - 1
      let (breaks, c) := blockBreaks t indent (t.size + 1) body []
      (indent, breaks, c)
  let (text, lastBreak, breaks, c) := blockLines t folded indent (t.size + 1) first #[] [] breaks
  let ending := match chomping with
    | .strip => []
    | .clip => lastBreak
    | .keep => lastBreak ++ breaks
  return (text.toList ++ ending, c)

end Surveyor.Yaml
