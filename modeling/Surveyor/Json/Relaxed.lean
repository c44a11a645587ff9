import Surveyor.Json.Reader

/-! # JSON with comments and trailing commas

`readRelaxed` first removes comments, then commas that stand before a closing bracket, and reads
what is left. Neither pass touches string literals. A quote that opens no literal is an ordinary
character, after which scanning goes on.
-/

namespace Surveyor.Json

/-- The offset after a string literal whose opening quote stands just before `i`. With
`lineBound`, a backslash cannot escape a newline. -/
def literalEnd? (t : Text) (lineBound : Bool) : Nat → Nat → Option Nat
  | 0, _ => none
  | fuel + 1, i =>
    match t[i]? with
    | none => none
    | some '"' => some (i + 1)
    | some '\\' =>
      match t[i + 1]? with
      | none => none
      | some c => if lineBound && c == '\n' then none else literalEnd? t lineBound fuel (i + 2)
    | some _ => literalEnd? t lineBound fuel (i + 1)

def lineEnd (t : Text) : Nat → Nat → Nat
  | 0, i => i
  | fuel + 1, i =>
    match t[i]? with
    | none => i
    | some c => if c == '\n' then i else lineEnd t fuel (i + 1)

def blockEnd? (t : Text) : Nat → Nat → Option Nat
  | 0, _ => none
  | fuel + 1, i =>
    match t[i]? with
    | none => none
    | some c =>
      if c == '*' && t[i + 1]? == some '/' then some (i + 2) else blockEnd? t fuel (i + 1)

def commentEnd? (t : Text) (i : Nat) : Option Nat :=
  if t[i]? == some '/' then
    if t[i + 1]? == some '/' then some (lineEnd t t.size (i + 2))
    else if t[i + 1]? == some '*' then blockEnd? t t.size (i + 2)
    else none
  else none

def withoutComments (t : Text) : Nat → Nat → Text → Text
  | 0, _, out => out
  | fuel + 1, i, out =>
    match t[i]? with
    | none => out
    | some c =>
      match (if c == '"' then literalEnd? t false t.size (i + 1) else none) with
      | some stop => withoutComments t fuel stop (out ++ t.extract i stop)
      | none =>
        match commentEnd? t i with
        | some stop => withoutComments t fuel stop out
        | none => withoutComments t fuel (i + 1) (out.push c)

def skipAllBlanks (t : Text) : Nat → Nat → Nat
  | 0, i => i
  | fuel + 1, i =>
    match t[i]? with
    | some c => if isBlank c then skipAllBlanks t fuel (i + 1) else i
    | none => i

/-- Is the comma at `i` followed, after blanks, by a closing bracket? -/
def isTrailingComma (t : Text) (i : Nat) : Bool :=
  if t[i]? == some ',' then
    let next := t[skipAllBlanks t t.size (i + 1)]?
    next == some '}' || next == some ']'
  else false

/-- Copies a text without its trailing commas. The bracket after a trailing comma is copied with
it, so it is not looked at again. -/
def withoutTrailingCommas (t : Text) : Nat → Nat → Text → Text
  | 0, _, out => out
  | fuel + 1, i, out =>
    match t[i]? with
    | none => out
    | some c =>
      match (if c == '"' then literalEnd? t true t.size (i + 1) else none) with
      | some stop => withoutTrailingCommas t fuel stop (out ++ t.extract i stop)
      | none =>
        if isTrailingComma t i then
          let stop := skipAllBlanks t t.size (i + 1) + 1
          withoutTrailingCommas t fuel stop (out ++ t.extract (i + 1) stop)
        else withoutTrailingCommas t fuel (i + 1) (out.push c)

def plainText (t : Text) : Text :=
  let bare := withoutComments t t.size 0 #[]
  withoutTrailingCommas bare bare.size 0 #[]

def readRelaxedObject? (t : Text) : Option Entries := readObject? (plainText t)

end Surveyor.Json
