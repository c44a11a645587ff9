import Surveyor.Number.Shortest
import Surveyor.Text.Quoted
import Surveyor.Value.Basic

/-! # Values in running text

`Value.display` writes a value the way a report quotes it: a string as it is, everything inside a
collection in quotes. Inside a collection a read-only mapping is marked as one.
-/

namespace Surveyor

namespace Value

def displayFloat (x : Float) : String := Binary64.render Binary64.plainStyle x

mutual

def displayQuoted : Value → String
  | .null => "None"
  | .bool b => if b then "True" else "False"
  | .int n => toString n
  | .float x => displayFloat x
  | .str s => quoted s
  | .list items => "[" ++ ", ".intercalate (displayItems items) ++ "]"
  | .tuple [single] => "(" ++ displayQuoted single ++ ",)"
  | .tuple items => "(" ++ ", ".intercalate (displayItems items) ++ ")"
  | .set [] => "set()"
  | .set items => "\x7b" ++ ", ".intercalate (displayItems items) ++ "\x7d"
  | .map entries => "\x7b" ++ ", ".intercalate (displayEntries entries) ++ "\x7d"
  | .view entries => "mappingproxy(\x7b" ++ ", ".intercalate (displayEntries entries) ++ "\x7d)"

def displayItems : List Value → List String
  | [] => []
  | item :: rest => displayQuoted item :: displayItems rest

def displayEntries : List (String × Value) → List String
  | [] => []
  | (key, value) :: rest => (quoted key ++ ": " ++ displayQuoted value) :: displayEntries rest

end

def display : Value → String
  | .str s => s
  | .view entries => displayQuoted (.map entries)
  | other => other.displayQuoted

end Value

end Surveyor
