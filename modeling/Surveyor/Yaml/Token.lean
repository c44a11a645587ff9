import Surveyor.Text.Utf8
import Surveyor.Yaml.Number
import Surveyor.Yaml.Scalar

/-! # Tokens of a YAML text

Indentation is turned into tokens that open and close block collections. Whether a node is a key is
only known at the colon after it, so the place of every node that may turn out to be a key is kept,
one for each level of flow collections, and its tokens are put in once the colon is found.
Tokens are read no further ahead than that, so that a fault is met in the order of the text.
-/

namespace Surveyor.Yaml

inductive Token where
  | versionDirective (major : Int)
  | tagDirective (handle lead : String)
  | otherDirective
  | documentStart
  | documentEnd
  | streamEnd
  | blockSequenceStart
  | blockMappingStart
  | blockEnd
  | flowSequenceStart
  | flowSequenceEnd
  | flowMappingStart
  | flowMappingEnd
  | blockEntry
  | flowEntry
  | key
  | value
  | reference (name : String)
  | anchor (name : String)
  | tag (handle : Option String) (suffix : String)
  | scalar (text : String) (isPlain : Bool)
  deriving DecidableEq, Repr

/-- A node that may turn out to be a key. -/
structure KeyCandidate where
  level : Nat
  /-- The number of tokens before it. -/
  token : Nat
  /-- Nothing but a key can stand here. -/
  isRequired : Bool
  place : Cursor

/-- What is known after a part of the text has been read. -/
structure Scan where
  cursor : Cursor
  level : Nat
  /-- The tokens that were read and not taken yet. -/
  pending : Array Token
  /-- The number of tokens that were taken. -/
  taken : Nat
  /-- The end of the text is among the tokens. -/
  isDone : Bool
  indent : Int
  indents : List Int
  allowsKey : Bool
  candidates : List KeyCandidate

namespace Scan

def start : Scan := ⟨.start, 0, #[], 0, false, -1, [], true, []⟩

def inFlow (s : Scan) : Bool := s.level != 0

def push (s : Scan) (token : Token) : Scan := { s with pending := s.pending.push token }

def moveTo (s : Scan) (c : Cursor) : Scan := { s with cursor := c }

/-! ## Keys -/

/-- How far after its start a key may end. -/
def maxKeyLength : Nat := 1024

def isStale (s : Scan) (k : KeyCandidate) : Bool :=
  k.place.line != s.cursor.line || maxKeyLength < s.cursor.pos - k.place.pos

/-- Drops candidates that can be keys no more. -/
def dropStale (s : Scan) : Except YamlError Scan :=
  if s.candidates.any fun k => s.isStale k && k.isRequired then .error .malformed
  else .ok { s with candidates := s.candidates.filter fun k => !s.isStale k }

def candidate? (s : Scan) : Option KeyCandidate := s.candidates.find? (·.level == s.level)

def dropCandidate (s : Scan) : Except YamlError Scan :=
  if s.candidates.any fun k => k.level == s.level && k.isRequired then .error .malformed
  else .ok { s with candidates := s.candidates.filter (·.level != s.level) }

/-- Keeps the place of a node that starts here. -/
def keepCandidate (s : Scan) : Except YamlError Scan :=
  if s.allowsKey then do
    let isRequired := !s.inFlow && s.indent == s.cursor.column
    let kept ← s.dropCandidate
    return { kept with
      candidates := ⟨s.level, s.taken + s.pending.size, isRequired, s.cursor⟩ :: kept.candidates }
  else .ok s

/-! ## Indentation -/

def closeBlocks (column : Int) : List Int → Scan → Scan
  | [], s => s
  | outer :: rest, s =>
    if column < s.indent then
      closeBlocks column rest ({ s with indent := outer, indents := rest }.push .blockEnd)
    else s

def unwind (s : Scan) (column : Int) : Scan :=
  if s.inFlow then s else closeBlocks column s.indents s

def opensBlock (s : Scan) (column : Nat) : Bool := s.indent < column

def addIndent (s : Scan) (column : Nat) : Scan :=
  { s with indents := s.indent :: s.indents, indent := column }

/-- Opens a block collection here unless it is open already. -/
def openBlock (s : Scan) (token : Token) : Scan :=
  if s.opensBlock s.cursor.column then (s.addIndent s.cursor.column).push token else s

/-! ## Names, tags and directives -/

def nameAt (t : Text) (c : Cursor) : Except YamlError (String × Cursor) :=
  let stop := c.skipWhile t isNameChar
  if stop.pos == c.pos then .error .malformed
  else .ok (String.ofList (c.between t stop), stop)

def isUriChar (c : Char) : Bool :=
  c.isAlphanum || "-;/?:@&=+$,_.!~*'()[]%".toList.contains c

def uriEscapes (t : Text) : Nat → Cursor → ByteArray → Except YamlError (ByteArray × Cursor)
  | 0, _, _ => .error .malformed
  | fuel + 1, c, bytes =>
    if c.peek t == '%' then
      let high := c.ahead t 1
      let low := c.ahead t 2
      if isHex high && isHex low then
        uriEscapes t fuel (c.skip t 3) (bytes.push (UInt8.ofNat (hexNumber [high, low])))
      else .error .malformed
    else .ok (bytes, c)

def uriParts (t : Text) : Nat → Cursor → Text → Except YamlError (Text × Cursor)
  | 0, _, _ => .error .malformed
  | fuel + 1, c, found =>
    if c.peek t == '%' then do
      let (bytes, c) ← uriEscapes t (t.size + 1) c .empty
      match String.fromUTF8? bytes with
      | some decoded => uriParts t fuel c (found ++ decoded.toList)
      | none => .error .malformed
    else if isUriChar (c.peek t) then uriParts t fuel (c.next t) (found.push (c.peek t))
    else .ok (found, c)

def uriAt (t : Text) (c : Cursor) : Except YamlError (String × Cursor) := do
  let (chars, after) ← uriParts t (t.size + 1) c #[]
  if after.pos == c.pos then .error .malformed else return (chars.asString, after)

/-- A handle of tags: a mark, or a name between two marks. -/
def handleAt (t : Text) (c : Cursor) : Except YamlError (String × Cursor) :=
  if c.peek t != '!' then .error .malformed
  else
    let first := c.next t
    if first.peek t == ' ' then .ok ("!", first)
    else
      let stop := first.skipWhile t isNameChar
      if stop.peek t == '!' then
        let after := stop.next t
        .ok (String.ofList (c.between t after), after)
      else .error .malformed

/-- Does a second mark follow before the tag ends? -/
def hasHandle (t : Text) (c : Cursor) : Bool :=
  (c.skipWhile t fun ch => !endsName ch && ch != '!').peek t == '!'

def tagAt (t : Text) (c : Cursor) : Except YamlError (Token × Cursor) := do
  let first := c.next t
  let ch := first.peek t
  let (token, after) ←
    if ch == '<' then do
      let (suffix, stop) ← uriAt t (first.next t)
      if stop.peek t == '>' then pure (Token.tag none suffix, stop.next t)
      else .error .malformed
    else if endsWord ch then pure (Token.tag none "!", first)
    else do
      let (handle, start) ← if hasHandle t first then handleAt t c else pure ("!", first)
      let (suffix, stop) ← uriAt t start
      pure (Token.tag (some handle) suffix, stop)
  if endsName (after.peek t) then return (token, after) else .error .malformed

def versionNumber (t : Text) (c : Cursor) : Except YamlError (Int × Cursor) := do
  let stop := c.skipWhile t Char.isDigit
  if stop.pos == c.pos then .error .malformed
  else return (← wholeNumber 10 (String.ofList (c.between t stop)), stop)

def directiveAt (t : Text) (c : Cursor) : Except YamlError (Token × Cursor) := do
  let (name, afterName) ← nameAt t (c.next t)
  if !endsName (afterName.peek t) then .error .malformed
  let (token, after) ←
    if name == "YAML" then do
      let (major, dot) ← versionNumber t (afterName.skipSpaces t)
      if dot.peek t != '.' then .error .malformed
      let (_, stop) ← versionNumber t (dot.next t)
      if !endsName (stop.peek t) then .error .malformed
      pure (Token.versionDirective major, stop)
    else if name == "TAG" then do
      let (handle, afterHandle) ← handleAt t (afterName.skipSpaces t)
      if afterHandle.peek t != ' ' then .error .malformed
      let (lead, stop) ← uriAt t (afterHandle.skipSpaces t)
      if !endsName (stop.peek t) then .error .malformed
      pure (Token.tagDirective handle lead, stop)
    else pure (Token.otherDirective, afterName.skipLine t)
  match after.emptyRest? t with
  | some rest => return (token, rest)
  | none => .error .malformed

/-! ## One token after the other -/

/-- Passes blanks, comments and breaks; after a break outside of flow collections a key may
follow. -/
def toNextToken (t : Text) : Nat → Scan → Scan
  | 0, s => s
  | fuel + 1, s =>
    let c := s.cursor.skipSpaces t
    let c := if c.peek t == '#' then c.skipLine t else c
    match c.lineBreak? t with
    | some (_, next) =>
      toNextToken t fuel { s with cursor := next, allowsKey := s.allowsKey || !s.inFlow }
    | none => s.moveTo c

/-- Closes all blocks and forgets the candidate before a mark between documents. -/
def leaveContent (s : Scan) : Except YamlError Scan := do
  let s ← (s.unwind (-1)).dropCandidate
  return { s with allowsKey := false }

def openFlow (t : Text) (s : Scan) (token : Token) : Except YamlError Scan := do
  let s ← s.keepCandidate
  return { s with level := s.level + 1, allowsKey := true, cursor := s.cursor.next t }.push token

def closeFlow (t : Text) (s : Scan) (token : Token) : Except YamlError Scan := do
  let s ← s.dropCandidate
  return { s with level := s.level - 1, allowsKey := false, cursor := s.cursor.next t }.push token

def flowEntry (t : Text) (s : Scan) : Except YamlError Scan := do
  let s ← s.dropCandidate
  return { s with allowsKey := true, cursor := s.cursor.next t }.push .flowEntry

def blockEntry (t : Text) (s : Scan) : Except YamlError Scan := do
  if !s.inFlow && !s.allowsKey then .error .malformed
  let s := if s.inFlow then s else s.openBlock .blockSequenceStart
  let s ← s.dropCandidate
  return { s with allowsKey := true, cursor := s.cursor.next t }.push .blockEntry

def explicitKey (t : Text) (s : Scan) : Except YamlError Scan := do
  if !s.inFlow && !s.allowsKey then .error .malformed
  let s := if s.inFlow then s else s.openBlock .blockMappingStart
  let s ← s.dropCandidate
  return { s with allowsKey := !s.inFlow, cursor := s.cursor.next t }.push .key

/-- Puts the tokens of a key before its node. -/
def promote (s : Scan) (k : KeyCandidate) : Scan :=
  let opens := !s.inFlow && s.opensBlock k.place.column
  let lead := if opens then #[Token.blockMappingStart, .key] else #[Token.key]
  let s := if opens then s.addIndent k.place.column else s
  let index := k.token - s.taken
  { s with
    pending := s.pending.extract 0 index ++ lead ++ s.pending.extract index s.pending.size
    candidates := s.candidates.filter (·.level != s.level)
    allowsKey := false }

def valueMark (t : Text) (s : Scan) : Except YamlError Scan := do
  let s ←
    match s.candidate? with
    | some k => pure (s.promote k)
    | none => do
      if !s.inFlow && !s.allowsKey then .error .malformed
      let s := if s.inFlow then s else s.openBlock .blockMappingStart
      let s ← s.dropCandidate
      pure { s with allowsKey := !s.inFlow }
  return (s.moveTo (s.cursor.next t)).push .value

def anchorMark (t : Text) (s : Scan) (token : String → Token) : Except YamlError Scan := do
  let s ← s.keepCandidate
  let (name, after) ← nameAt t (s.cursor.next t)
  let ch := after.peek t
  if endsWord ch || "?:,]\x7d%@".toList.contains ch || ch.toNat == 0x60 then
    return { s with allowsKey := false, cursor := after }.push (token name)
  else .error .malformed

def tagMark (t : Text) (s : Scan) : Except YamlError Scan := do
  let s ← s.keepCandidate
  let (token, after) ← tagAt t s.cursor
  return { s with allowsKey := false, cursor := after }.push token

def blockText (t : Text) (s : Scan) : Except YamlError Scan := do
  let s ← s.dropCandidate
  let (text, after) ← blockScalar t s.indent s.cursor
  return { s with allowsKey := true, cursor := after }.push (.scalar (String.ofList text) false)

def quotedText (t : Text) (s : Scan) : Except YamlError Scan := do
  let s ← s.keepCandidate
  let (text, after) ← quotedScalar t s.cursor
  return { s with allowsKey := false, cursor := after }.push (.scalar (String.ofList text) false)

def plainText (t : Text) (s : Scan) : Except YamlError Scan := do
  let s ← s.keepCandidate
  let found := plainScalar t s.inFlow s.indent s.cursor
  return { s with allowsKey := found.allowsKey, cursor := found.after }.push
    (.scalar (String.ofList found.text) true)

/-- Characters that have a meaning of their own at the start of a token. -/
def isIndicator (c : Char) : Bool :=
  endsWord c || "-?:,[]\x7b\x7d#&*!|>'\"%@".toList.contains c || c.toNat == 0x60

def startsPlain (t : Text) (s : Scan) : Bool :=
  let ch := s.cursor.peek t
  !isIndicator ch
    || (!endsWord (s.cursor.ahead t 1) && (ch == '-' || (!s.inFlow && (ch == '?' || ch == ':'))))

def readToken (t : Text) (s : Scan) : Except YamlError Scan :=
  let c := s.cursor
  let ch := c.peek t
  let endsNext := endsWord (c.ahead t 1)
  let isSeparator := c.column == 0 && c.atSeparator t
  if ch == '%' && c.column == 0 then do
    let s ← s.leaveContent
    let (token, after) ← directiveAt t c
    return (s.moveTo after).push token
  else if isSeparator then do
    let s ← s.leaveContent
    return (s.moveTo (c.skip t 3)).push (if ch == '-' then .documentStart else .documentEnd)
  else if ch == '[' then s.openFlow t .flowSequenceStart
  else if ch == '{' then s.openFlow t .flowMappingStart
  else if ch == ']' then s.closeFlow t .flowSequenceEnd
  else if ch == '}' then s.closeFlow t .flowMappingEnd
  else if ch == ',' then s.flowEntry t
  else if ch == '-' && endsNext then s.blockEntry t
  else if ch == '?' && (s.inFlow || endsNext) then s.explicitKey t
  else if ch == ':' && (s.inFlow || endsNext) then s.valueMark t
  else if ch == '*' then s.anchorMark t .reference
  else if ch == '&' then s.anchorMark t .anchor
  else if ch == '!' then s.tagMark t
  else if (ch == '|' || ch == '>') && !s.inFlow then s.blockText t
  else if ch == '\'' || ch == '"' then s.quotedText t
  else if s.startsPlain t then s.plainText t
  else .error .malformed

def fetch (t : Text) (s : Scan) : Except YamlError Scan := do
  let s ← (toNextToken t (t.size + 1) s).dropStale
  let s := s.unwind s.cursor.column
  if isEnd (s.cursor.peek t) then do
    let s ← s.leaveContent
    return { s.push .streamEnd with isDone := true, candidates := [] }
  else s.readToken t

/-- Reads on until it is certain what the next token is: as long as the node that starts with it
may turn out to be a key, it is not. -/
def fill (t : Text) : Nat → Scan → Except YamlError Scan
  | 0, _ => .error .malformed
  | fuel + 1, s =>
    if s.isDone then .ok s
    else if s.pending.isEmpty then do fill t fuel (← s.fetch t)
    else do
      let s ← s.dropStale
      if s.candidates.any (·.token == s.taken) then fill t fuel (← s.fetch t) else return s

/-- The next token, which is certain after filling up. -/
def head (s : Scan) : Token := s.pending.getD 0 .streamEnd

def take (s : Scan) : Scan :=
  { s with pending := s.pending.extract 1 s.pending.size, taken := s.taken + 1 }

/-- The start of a text; a byte order mark is passed. -/
def ofText (t : Text) : Except YamlError Scan :=
  if !t.all isAllowed then .error .malformed
  else .ok (Scan.start.moveTo (if charAt t 0 == byteOrderMark then Cursor.start.next t else .start))

end Scan

end Surveyor.Yaml
