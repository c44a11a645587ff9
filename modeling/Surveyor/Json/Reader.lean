import Surveyor.Number.Binary64
import Surveyor.Text.CodePoint
import Surveyor.Value.Basic

/-! # Reading JSON

The reader accepts the standard grammar and the names `NaN`, `Infinity` and `-Infinity`. A key that
is repeated keeps its first place and takes its last value. Integers are of any size up to
`maxDigits` digits.
-/

namespace Surveyor.Json

inductive ReadError where
  /-- The grammar is broken at an offset. -/
  | malformed (offset : Nat)
  /-- An integer has too many digits. -/
  | tooManyDigits
  deriving Repr, DecidableEq

def maxDigits : Nat := 4300

abbrev Result := Except ReadError (Value × Nat)

def isJsonBlank (c : Char) : Bool := c == ' ' || c == '\t' || c == '\n' || c == '\r'

def skipBlanks (t : Text) : Nat → Nat → Nat
  | 0, i => i
  | fuel + 1, i =>
    match t[i]? with
    | some c => if isJsonBlank c then skipBlanks t fuel (i + 1) else i
    | none => i

def digitsFrom (t : Text) : Nat → Nat → List Char → List Char × Nat
  | 0, i, found => (found.reverse, i)
  | fuel + 1, i, found =>
    match t[i]? with
    | some c => if c.isDigit then digitsFrom t fuel (i + 1) (c :: found) else (found.reverse, i)
    | none => (found.reverse, i)

def hasWord (t : Text) (chars : List Char) (i : Nat) : Bool :=
  (t.extract i (i + chars.length)).toList == chars

def hexValue? (c : Char) : Option Nat :=
  if c.isDigit then some (c.toNat - 48)
  else if 'a' ≤ c && c ≤ 'f' then some (c.toNat - 87)
  else if 'A' ≤ c && c ≤ 'F' then some (c.toNat - 55)
  else none

def hexCode? (t : Text) (i : Nat) : Option Nat := do
  let a ← t[i]? >>= hexValue?
  let b ← t[i + 1]? >>= hexValue?
  let c ← t[i + 2]? >>= hexValue?
  let d ← t[i + 3]? >>= hexValue?
  pure (((a * 16 + b) * 16 + c) * 16 + d)

def simpleEscape? (c : Char) : Option Char :=
  match c with
  | '"' => some '"'
  | '\\' => some '\\'
  | '/' => some '/'
  | 'b' => some (Char.ofNat 8)
  | 'f' => some (Char.ofNat 12)
  | 'n' => some '\n'
  | 'r' => some '\r'
  | 't' => some '\t'
  | _ => none

/-- The character of a numeric escape whose digits start at `i`, and the offset after it. Two
escapes that form a surrogate pair are one character. The text goes on after an escape. -/
def numericEscape? (t : Text) (i : Nat) : Option (Char × Nat) := do
  guard (i + 4 < t.size)
  let code ← hexCode? t i
  let pair? : Option Nat := do
    guard (Surrogate.isHigh code && i + 10 < t.size)
    guard (t[i + 4]? == some '\\' && t[i + 5]? == some 'u')
    let low ← hexCode? t (i + 6)
    guard (Surrogate.isLow low)
    pure low
  match pair? with
  | some low => pure (Surrogate.join code low, i + 10)
  | none => pure (Surrogate.charOf code, i + 4)

def stringBody (t : Text) (opened : Nat) : Nat → Nat → List Char →
    Except ReadError (String × Nat)
  | 0, _, _ => .error (.malformed opened)
  | fuel + 1, i, found =>
    match t[i]? with
    | none => .error (.malformed opened)
    | some '"' => .ok (String.ofList found.reverse, i + 1)
    | some '\\' =>
      match t[i + 1]? with
      | none => .error (.malformed opened)
      | some 'u' =>
        match numericEscape? t (i + 2) with
        | some (c, next) => stringBody t opened fuel next (c :: found)
        | none => .error (.malformed (i + 1))
      | some e =>
        match simpleEscape? e with
        | some c => stringBody t opened fuel (i + 2) (c :: found)
        | none => .error (.malformed i)
    | some c =>
      if c.toNat < 32 then .error (.malformed i) else stringBody t opened fuel (i + 1) (c :: found)

def stringAt (t : Text) (i : Nat) : Except ReadError (String × Nat) :=
  stringBody t i (t.size + 1) (i + 1) []

def exponentAt? (t : Text) (i : Nat) : Option (Int × Nat) := do
  let mark ← t[i]?
  guard (mark == 'e' || mark == 'E')
  let signed := t[i + 1]? == some '-' || t[i + 1]? == some '+'
  let (digits, stop) := digitsFrom t t.size (if signed then i + 2 else i + 1) []
  guard !digits.isEmpty
  let size : Int := digitsToNat (digits.dropWhile (· == '0') |>.take 10)
  pure (if t[i + 1]? == some '-' then -size else size, stop)

def fractionAt? (t : Text) (i : Nat) : Option (List Char × Nat) := do
  guard (t[i]? == some '.')
  let (digits, stop) := digitsFrom t t.size (i + 1) []
  guard !digits.isEmpty
  pure (digits, stop)

/-- The number at an offset: an integer unless it has a fraction or an exponent. -/
def numberAt (t : Text) (start : Nat) : Result :=
  let negative := t[start]? == some '-'
  let i := if negative then start + 1 else start
  let (all, allStop) := digitsFrom t t.size i []
  let (whole, stop) := if all.head? == some '0' then (['0'], i + 1) else (all, allStop)
  if whole.isEmpty then .error (.malformed start)
  else
    let fraction? := fractionAt? t stop
    let afterFraction := (fraction?.map (·.2)).getD stop
    let exponent? := exponentAt? t afterFraction
    match fraction?, exponent? with
    | none, none =>
      if whole.length > maxDigits then .error .tooManyDigits
      else
        let n : Int := digitsToNat whole
        .ok (.int (if negative then -n else n), stop)
    | _, _ =>
      let fraction := (fraction?.map (·.1)).getD []
      let exponent := (exponent?.map (·.1)).getD 0
      let value := decimalToFloat negative (whole ++ fraction) (exponent - fraction.length)
      .ok (.float value, (exponent?.map (·.2)).getD afterFraction)

/-- A scalar that is neither a string nor a collection. -/
def scalarAt (t : Text) (i : Nat) : Result :=
  if hasWord t "null".toList i then .ok (.null, i + 4)
  else if hasWord t "true".toList i then .ok (.bool true, i + 4)
  else if hasWord t "false".toList i then .ok (.bool false, i + 5)
  else if hasWord t "NaN".toList i then .ok (.float Binary64.undefined, i + 3)
  else if hasWord t "Infinity".toList i then .ok (.float Binary64.infinity, i + 8)
  else if hasWord t "-Infinity".toList i then .ok (.float (-Binary64.infinity), i + 9)
  else numberAt t i

mutual

def valueAt (t : Text) : Nat → Nat → Result
  | 0, i => .error (.malformed i)
  | fuel + 1, i =>
    match t[i]? with
    | some '"' =>
      match stringAt t i with
      | .ok (s, next) => .ok (.str s, next)
      | .error e => .error e
    | some '{' =>
      let next := skipBlanks t t.size (i + 1)
      if t[next]? == some '}' then .ok (.map [], next + 1)
      else entriesFrom t fuel next []
    | some '[' =>
      let next := skipBlanks t t.size (i + 1)
      if t[next]? == some ']' then .ok (.list [], next + 1)
      else itemsFrom t fuel next []
    | some _ => scalarAt t i
    | none => .error (.malformed i)

def itemsFrom (t : Text) : Nat → Nat → List Value → Result
  | 0, i, _ => .error (.malformed i)
  | fuel + 1, i, found =>
    match valueAt t fuel i with
    | .error e => .error e
    | .ok (v, after) =>
      let next := skipBlanks t t.size after
      if t[next]? == some ',' then
        itemsFrom t fuel (skipBlanks t t.size (next + 1)) (v :: found)
      else if t[next]? == some ']' then .ok (.list (v :: found).reverse, next + 1)
      else .error (.malformed next)

def entriesFrom (t : Text) : Nat → Nat → List (String × Value) → Result
  | 0, i, _ => .error (.malformed i)
  | fuel + 1, i, found =>
    if t[i]? != some '"' then .error (.malformed i)
    else
      match stringAt t i with
      | .error e => .error e
      | .ok (key, afterKey) =>
        let colon := skipBlanks t t.size afterKey
        if t[colon]? != some ':' then .error (.malformed colon)
        else
          match valueAt t fuel (skipBlanks t t.size (colon + 1)) with
          | .error e => .error e
          | .ok (v, after) =>
            let found := Entries.insert key v found
            let next := skipBlanks t t.size after
            if t[next]? == some ',' then
              entriesFrom t fuel (skipBlanks t t.size (next + 1)) found
            else if t[next]? == some '}' then .ok (.map found, next + 1)
            else .error (.malformed next)

end

/-- The value written by a whole text. A byte order mark is no part of a document. -/
def readText (t : Text) : Except ReadError Value :=
  if t[0]? == some (Char.ofNat 0xfeff) then .error (.malformed 0)
  else
    match valueAt t (2 * t.size + 2) (skipBlanks t t.size 0) with
    | .error e => .error e
    | .ok (v, after) =>
      let stop := skipBlanks t t.size after
      if stop == t.size then .ok v else .error (.malformed stop)

def read (s : String) : Except ReadError Value := readText (Text.ofString s)

/-- The object written by a text; nothing if the text is malformed or no object. -/
def readObject? (t : Text) : Option Entries :=
  match readText t with
  | .ok (.map entries) => some entries
  | _ => none

end Surveyor.Json
