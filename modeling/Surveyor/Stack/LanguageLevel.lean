import Surveyor.Pattern.Vocabulary

/-! # Language levels

A level of a language brings new syntax. The level a project needs is the highest one whose syntax
occurs in any of its sources.
-/

namespace Surveyor

open Pattern

structure LanguageLevel where
  label : String
  features : List Pattern

def LanguageLevel.occursIn (level : LanguageLevel) (s : Subject) : Bool :=
  level.features.any (·.occursIn s)

/-- The editions of ECMAScript, the oldest first. -/
def ecmaScriptLevels : Array LanguageLevel := #[
  ⟨"ES2015", [wordEdge ++ words ["let", "const"] ++ .one isBlank, lit "=>",
    wordEdge ++ lit "class" ++ blanks1 ++ word]⟩,
  ⟨"ES2016", [.one isWordChar ++ blanks ++ lit "**" ++ blanks ++ .one isWordChar,
    lit ".includes("]⟩,
  ⟨"ES2017", [wordEdge ++ lit "async" ++ .one isBlank, wordEdge ++ lit "await" ++ .one isBlank]⟩,
  ⟨"ES2018", [char '{' ++ blanks ++ lit "..." ++ word,
    wordEdge ++ lit "for" ++ blanks1 ++ lit "await" ++ wordEdge]⟩,
  ⟨"ES2019", [lit ".flat(", lit ".flatMap(", wordEdge ++ lit "catch" ++ blanks ++ char '{']⟩,
  ⟨"ES2020", [lit "?." ++ .one (fun c => isWordChar c || c == '[' || c == '('),
    lit "??" ++ notNext (· == '=')]⟩,
  ⟨"ES2021", [lit "??=", lit "||=", lit "&&="]⟩,
  ⟨"ES2022", [lit ".at(",
    lineStart ++ blanks ++ opt (lit "static" ++ blanks1) ++ char '#' ++ word ++ blanks
      ++ .one (fun c => c == '=' || c == ';')]⟩,
  ⟨"ES2023", [lit ".findLast" ++ opt (lit "Index") ++ char '(', textStart ++ lit "#!"]⟩]

/-- The versions of PHP, the oldest first. -/
def phpLevels : Array LanguageLevel := #[
  ⟨"7.0", [lit "function" ++ blanks1 ++ opt (char '&') ++ word ++ blanks ++ char '('
      ++ .greedy (· != ')') 0 ++ char ')' ++ blanks ++ char ':' ++ blanks ++ opt (char '?')
      ++ opt (char '\\') ++ word,
    lit "??" ++ notNext (· == '=')]⟩,
  ⟨"7.1", [.one (fun c => c == '(' || c == ',') ++ blanks ++ char '?' ++ opt (char '\\') ++ word
      ++ blanks1 ++ char '$',
    char ')' ++ blanks ++ char ':' ++ blanks
      ++ (char '?' ++ opt (char '\\') ++ word <|> lit "void") ++ wordEdge]⟩,
  ⟨"7.4", [wordEdge ++ lit "fn" ++ blanks ++ char '(', lit "??="]⟩,
  ⟨"8.0", [lit "?->", wordEdge ++ lit "match" ++ blanks ++ char '(',
    lit "function" ++ blanks1 ++ lit "__construct" ++ blanks ++ char '(' ++ blanks
      ++ words ["public", "protected", "private"]]⟩,
  ⟨"8.1", [wordEdge ++ lit "enum" ++ blanks1 ++ word,
    wordEdge ++ lit "readonly" ++ blanks1 ++ words ["public", "protected", "private"]]⟩,
  ⟨"8.2", [wordEdge ++ lit "readonly" ++ blanks1 ++ opt (lit "final" ++ blanks1) ++ lit "class"
    ++ wordEdge]⟩]

/-- Searches the levels `count`, `count - 1`, …, down to above `best` for one whose syntax occurs in
the source; the first level has the number one. -/
def highestAbove (levels : Array LanguageLevel) (s : Subject) (best : Nat) : Nat → Nat
  | 0 => best
  | count + 1 =>
    if count < best then best
    else
      match levels[count]? with
      | some level => if level.occursIn s then count + 1 else highestAbove levels s best count
      | none => highestAbove levels s best count

/-- The number of the highest level found so far, raised by what one more source needs. -/
def raiseLevel (levels : Array LanguageLevel) (best : Nat) (source : Text) : Nat :=
  highestAbove levels (Subject.ofText source) best levels.size

/-- The number of the highest level that any source needs; zero for none. -/
def highestLevel (levels : Array LanguageLevel) (sources : List Text) : Nat :=
  sources.foldl (raiseLevel levels) 0

/-- The same number, starting from `best`; once the last level is reached, no further source is looked
at. -/
def highestLevelUntilLast (levels : Array LanguageLevel) : Nat → List Text → Nat
  | best, [] => best
  | best, source :: rest =>
    let raised := raiseLevel levels best source
    if raised == levels.size then raised else highestLevelUntilLast levels raised rest

/-- The label of the level with a number; zero is the number of none. -/
def labelOf? (levels : Array LanguageLevel) : Nat → Option String
  | 0 => none
  | number + 1 => levels[number]?.map LanguageLevel.label

/-- The newest edition of ECMAScript whose syntax occurs in the sources. -/
def ecmaScriptVersion (sources : List Text) : Option String :=
  labelOf? ecmaScriptLevels (highestLevelUntilLast ecmaScriptLevels 0 sources)

def phpBaseline : String := "5.6"

/-- The lowest version of PHP that runs all sources; nothing if there are none. -/
def phpVersion (sources : List Text) : Option String :=
  if sources.isEmpty then none
  else some (">=" ++ (labelOf? phpLevels (highestLevel phpLevels sources)).getD phpBaseline)

end Surveyor
