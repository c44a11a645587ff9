import Surveyor.Value.Display

/-! # Writing JSON

Values are written over several lines with two blanks of indentation a level, an empty collection
on one line, the keys of a mapping in their order and characters beyond ASCII as they are. A message
is written without any blanks.
-/

namespace Surveyor.Json

/-- Doubles of a document: the running-text form with the names of the special values spelt out. -/
def documentStyle : Binary64.Style :=
  { Binary64.plainStyle with infinity := "Infinity", undefined := "NaN" }

def escapeChar (c : Char) : List Char :=
  if c == '"' || c == '\\' then ['\\', c]
  else if c == '\n' then ['\\', 'n']
  else if c == '\r' then ['\\', 'r']
  else if c == '\t' then ['\\', 't']
  else if c.toNat == 12 then ['\\', 'f']
  else if c.toNat == 8 then ['\\', 'b']
  else if c.toNat < 32 then '\\' :: 'u' :: hexDigits 4 c.toNat
  else [c]

def literal (s : String) : String :=
  String.ofList ('"' :: (s.toList.flatMap escapeChar ++ ['"']))

/-- A line break and the indentation of a level. -/
def newline (level : Nat) : String := "\n" ++ String.ofList (List.replicate (2 * level) ' ')

/-- Wraps the written members of a collection. -/
def enclose (opening closing : String) (level : Nat) (parts : List String) : String :=
  if parts.isEmpty then opening ++ closing
  else
    opening ++ newline (level + 1) ++ ("," ++ newline (level + 1)).intercalate parts
      ++ newline level ++ closing

mutual

/-- A value at a level of indentation. -/
def writeValue (level : Nat) : Value → String
  | .null => "null"
  | .bool b => if b then "true" else "false"
  | .int n => toString n
  | .float x => Binary64.render documentStyle x
  | .str s => literal s
  | .list items | .tuple items | .set items => enclose "[" "]" level (writeItems (level + 1) items)
  | .map entries | .view entries => enclose "\x7b" "\x7d" level (writeEntries (level + 1) entries)

def writeItems (level : Nat) : List Value → List String
  | [] => []
  | item :: rest => writeValue level item :: writeItems level rest

def writeEntries (level : Nat) : List (String × Value) → List String
  | [] => []
  | (key, value) :: rest =>
    (literal key ++ ": " ++ writeValue level value) :: writeEntries level rest

end

/-- A document: the value and a newline. -/
def document (v : Value) : String := writeValue 0 v ++ "\n"

mutual

/-- A value without blanks. -/
def message : Value → String
  | .null => "null"
  | .bool b => if b then "true" else "false"
  | .int n => toString n
  | .float x => Binary64.render documentStyle x
  | .str s => literal s
  | .list items | .tuple items | .set items => "[" ++ ",".intercalate (messageItems items) ++ "]"
  | .map entries | .view entries => "\x7b" ++ ",".intercalate (messageEntries entries) ++ "\x7d"

def messageItems : List Value → List String
  | [] => []
  | item :: rest => message item :: messageItems rest

def messageEntries : List (String × Value) → List String
  | [] => []
  | (key, value) :: rest => (literal key ++ ":" ++ message value) :: messageEntries rest

end

end Surveyor.Json
