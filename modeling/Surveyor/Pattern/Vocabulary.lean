import Surveyor.Pattern.Search

/-! # Pieces shared by the patterns of several languages -/

namespace Surveyor.Pattern

/-! ## Classes of characters -/

/-- Characters of identifiers: word characters and the dollar sign. -/
def isNameChar (c : Char) : Bool := c == '$' || isWordChar c

/-- Characters that may start an identifier in call position. -/
def isNameStart (c : Char) : Bool := c == '$' || c == '_' || c.isAlpha

/-- Characters of qualified names: word characters and the backslash. -/
def isPathChar (c : Char) : Bool := c == '\\' || isWordChar c

def isQuote (c : Char) : Bool := c == '"' || c == '\''

def isTabOrSpace (c : Char) : Bool := c == ' ' || c == '\t'

def isParen (c : Char) : Bool := c == '(' || c == ')'

/-! ## Runs -/

def char (c : Char) : Pattern := .one fun d => c == d

def blanks : Pattern := .greedy isBlank 0

def blanks1 : Pattern := .greedy isBlank 1

def indent : Pattern := .greedy isTabOrSpace 0

def word : Pattern := .greedy isWordChar 1

def name : Pattern := .greedy isNameChar 1

def quote : Pattern := .one isQuote

/-- What stands between the parentheses of a parameter list, with one level of nested ones. -/
def parameters : Pattern := .arguments (!isParen ·)

/-- A parameter list that stays on its line. -/
def lineParameters : Pattern := .arguments fun c => !isParen c && c != '\n'

/-- Keywords, each followed by blanks, in any number. -/
def modifiers (keywords : List String) : Pattern := .star (words keywords ++ blanks1)

end Surveyor.Pattern
