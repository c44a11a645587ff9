import Surveyor.Text.CodePoint

/-! # Texts

A `Text` is a sequence of code points with constant-time access; every offset, length and limit of
the analysis counts code points. The operations on short strings (names, paths, single lines) go
through their lists of characters.
-/

namespace Surveyor

/-- A text as an array of code points. -/
abbrev Text := Array Char

namespace Text

def ofString (s : String) : Text := s.toList.toArray

def asString (t : Text) : String := String.ofList t.toList

/-- The part of a text from offset `start` up to, and without, offset `stop`. -/
def slice (t : Text) (start stop : Nat) : String := asString (t.extract start stop)

/-- An index counted from the front, or from the back if negative, kept within `0 … length`. -/
def clampIndex (length : Nat) (index : Int) : Nat :=
  if index < 0 then Int.toNat (length + index) else min index.toNat length

def takeTo (t : Text) (limit : Int) : Text :=
  t.extract 0 (clampIndex t.size limit)

def between (t : Text) (start stop : Int) : Text :=
  t.extract (clampIndex t.size start) (clampIndex t.size stop)

/-! ## Lists of characters -/

/-- Cuts at every separator; `n` separators give `n + 1` parts. -/
def splitChars (separator : Char) (chars : List Char) : List (List Char) :=
  chars.foldr
    (fun c parts =>
      if c == separator then [] :: parts
      else
        match parts with
        | [] => [[c]]
        | part :: rest => (c :: part) :: rest)
    [[]]

def dropRightWhile (p : Char → Bool) (chars : List Char) : List Char :=
  (chars.reverse.dropWhile p).reverse

def stripChars (p : Char → Bool) (chars : List Char) : List Char :=
  dropRightWhile p (chars.dropWhile p)

/-! ## Strings -/

/-- The string without the characters of a class at both ends. -/
def stripWhere (p : Char → Bool) (s : String) : String :=
  String.ofList (stripChars p s.toList)

def strip (s : String) : String := stripWhere isBlank s

def stripLeft (p : Char → Bool) (s : String) : String :=
  String.ofList (s.toList.dropWhile p)

def stripRight (p : Char → Bool) (s : String) : String :=
  String.ofList (dropRightWhile p s.toList)

def isBlankString (s : String) : Bool := s.toList.all isBlank

def split (separator : Char) (s : String) : List String :=
  (splitChars separator s.toList).map String.ofList

def words (s : String) : List String :=
  let parts := s.toList.foldr
    (fun c parts =>
      if isBlank c then [] :: parts
      else
        match parts with
        | [] => [[c]]
        | part :: rest => (c :: part) :: rest)
    [[]]
  (parts.filter (!·.isEmpty)).map String.ofList

/-- The part before the first separator, and the part after it if there is one. -/
def splitOnce (separator : Char) (s : String) : String × Option String :=
  match s.toList.span (· != separator) with
  | (before, _ :: after) => (String.ofList before, some (String.ofList after))
  | (before, []) => (String.ofList before, none)

def afterLast (separator : Char) (s : String) : String :=
  String.ofList (s.toList.reverse.takeWhile (· != separator)).reverse

def beforeLast? (separator : Char) (s : String) : Option String :=
  match s.toList.reverse.dropWhile (· != separator) with
  | _ :: before => some (String.ofList before.reverse)
  | [] => none

/-- The first line, in the sense of running text. -/
def firstLine (s : String) : String :=
  String.ofList (s.toList.takeWhile (!isLineBreak ·))

def hasPrefix (s start : String) : Bool := start.toList.isPrefixOf s.toList

def hasSuffix (s ending : String) : Bool := ending.toList.reverse.isPrefixOf s.toList.reverse

def hasAnySuffix (s : String) (endings : List String) : Bool := endings.any (hasSuffix s)

def containsChars (part : List Char) : List Char → Bool
  | [] => part.isEmpty
  | c :: rest => part.isPrefixOf (c :: rest) || containsChars part rest

def contains (s part : String) : Bool := containsChars part.toList s.toList

def replaceChar (old new : Char) (s : String) : String :=
  String.ofList (s.toList.map fun c => if c == old then new else c)

def removeChar (c : Char) (s : String) : String :=
  String.ofList (s.toList.filter (· != c))

def countChar (c : Char) (s : String) : Nat := s.toList.countP (· == c)

def join (separator : String) (parts : List String) : String := separator.intercalate parts

def baseName (path : String) : String := afterLast '/' path

/-- The folder of a path; `.` for a path without folders. -/
def folderName (path : String) : String := (beforeLast? '/' path).getD "."

/-- Strings in ascending order by code points. -/
def sortStrings (names : List String) : List String :=
  names.mergeSort fun a b => decide (a ≤ b)

def distinctSorted (names : List String) : List String :=
  (sortStrings names).foldr
    (fun name kept => if kept.head? == some name then kept else name :: kept) []

end Text

end Surveyor
