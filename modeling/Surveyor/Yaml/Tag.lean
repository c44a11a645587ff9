import Surveyor.Text.Basic

/-! # Tags of YAML nodes

The tag of a plain scalar follows from its form.
-/

namespace Surveyor.Yaml

/-- The kinds of values that a node can stand for. -/
inductive Tag where
  | null
  | bool
  | int
  | float
  | str
  | timestamp
  | binary
  | sequence
  | mapping
  | set
  | orderedMap
  | pairs
  | merge
  | value
  | unknown
  deriving DecidableEq, Repr

def Tag.ofName (name : String) : Tag :=
  match name with
  | "tag:yaml.org,2002:null" => .null
  | "tag:yaml.org,2002:bool" => .bool
  | "tag:yaml.org,2002:int" => .int
  | "tag:yaml.org,2002:float" => .float
  | "tag:yaml.org,2002:str" => .str
  | "tag:yaml.org,2002:timestamp" => .timestamp
  | "tag:yaml.org,2002:binary" => .binary
  | "tag:yaml.org,2002:seq" => .sequence
  | "tag:yaml.org,2002:map" => .mapping
  | "tag:yaml.org,2002:set" => .set
  | "tag:yaml.org,2002:omap" => .orderedMap
  | "tag:yaml.org,2002:pairs" => .pairs
  | "tag:yaml.org,2002:merge" => .merge
  | "tag:yaml.org,2002:value" => .value
  | _ => .unknown

/-! ## Forms of plain scalars -/

def isDigitOrUnderscore (c : Char) : Bool := c.isDigit || c == '_'

def withoutSign (chars : List Char) : List Char :=
  match chars with
  | '-' :: rest | '+' :: rest => rest
  | _ => chars

/-- The text after a decimal number that starts with a digit, and may hold underscores after it. -/
def afterNumber? (chars : List Char) : Option (List Char) :=
  match chars with
  | c :: rest => if c.isDigit then some (rest.dropWhile isDigitOrUnderscore) else none
  | [] => none

/-- An exponent with its sign, or nothing. -/
def isExponent (chars : List Char) : Bool :=
  match chars with
  | [] => true
  | e :: sign :: digits =>
    (e == 'e' || e == 'E') && (sign == '+' || sign == '-') && !digits.isEmpty
      && digits.all Char.isDigit
  | _ => false

/-- A part of a number to the base sixty: one digit, or two of which the first is below six. -/
def isSixtieth (chars : List Char) : Bool :=
  match chars with
  | [a] => a.isDigit
  | [a, b] => '0' ≤ a && a ≤ '5' && b.isDigit
  | _ => false

/-- One or more parts, each after a colon. -/
def areSixtieths (chars : List Char) : Bool :=
  match Text.splitChars ':' chars with
  | [] :: parts => !parts.isEmpty && parts.all isSixtieth
  | _ => false

/-- Digits and underscores after a point, and an exponent. -/
def isFraction (chars : List Char) : Bool := isExponent (chars.dropWhile isDigitOrUnderscore)

def isPositionalFloat (chars : List Char) : Bool :=
  match afterNumber? (withoutSign chars) with
  | some ('.' :: rest) => isFraction rest
  | _ => false

def isBareFraction (chars : List Char) : Bool :=
  match chars with
  | '.' :: d :: rest => d.isDigit && isFraction rest
  | _ => false

def isSixtyFloat (chars : List Char) : Bool :=
  match afterNumber? (withoutSign chars) with
  | some rest =>
    let (parts, fraction) := rest.span (· != '.')
    areSixtieths parts && match fraction with
      | '.' :: digits => digits.all isDigitOrUnderscore
      | _ => false
  | none => false

def isSpecialFloat (chars : List Char) : Bool :=
  ([".inf", ".Inf", ".INF"].map String.toList).contains (withoutSign chars)
    || ([".nan", ".NaN", ".NAN"].map String.toList).contains chars

def isFloat (chars : List Char) : Bool :=
  isPositionalFloat chars || isBareFraction chars || isSixtyFloat chars || isSpecialFloat chars

/-- Are there digits, and only such as belong to the base, or underscores? -/
def areDigits (p : Char → Bool) (chars : List Char) : Bool :=
  !chars.isEmpty && chars.all fun c => p c || c == '_'

def isInt (chars : List Char) : Bool :=
  match withoutSign chars with
  | ['0'] => true
  | '0' :: 'b' :: digits => areDigits (fun c => c == '0' || c == '1') digits
  | '0' :: 'x' :: digits =>
    areDigits (fun c => c.isDigit || ('a' ≤ c && c ≤ 'f') || ('A' ≤ c && c ≤ 'F')) digits
  | '0' :: digits => areDigits (fun c => '0' ≤ c && c ≤ '7') digits
  | c :: digits =>
    c.isDigit && (let rest := digits.dropWhile isDigitOrUnderscore; rest.isEmpty || areSixtieths rest)
  | [] => false

/-- The four, one or two, one or two digits of a date, and what follows. -/
structure DateForm where
  year : List Char
  month : List Char
  day : List Char
  rest : List Char

def takeDigits (n : Nat) (chars : List Char) : List Char := (chars.take n).takeWhile Char.isDigit

def dateForm? (chars : List Char) : Option DateForm := do
  let year := takeDigits 4 chars
  guard (year.length == 4)
  let '-' :: chars := chars.drop 4 | none
  let month := takeDigits 2 chars
  guard (!month.isEmpty)
  let '-' :: chars := chars.drop month.length | none
  let day := takeDigits 2 chars
  guard (!day.isEmpty)
  return ⟨year, month, day, chars.drop day.length⟩

/-- The distance of a time zone: its sign, hours and minutes. -/
structure ZoneForm where
  isNegative : Bool
  hours : List Char
  minutes : List Char

/-- A time of day with a fraction of a second and a zone. -/
structure TimeForm where
  hour : List Char
  minute : List Char
  second : List Char
  zone : Option ZoneForm

def isSpaceTab (c : Char) : Bool := c == ' ' || c == '\t'

/-- A time zone up to the end: nothing, the letter Z, or a distance. -/
def zoneForm? (chars : List Char) : Option (Option ZoneForm) :=
  match chars.dropWhile isSpaceTab with
  | [] => if chars.isEmpty then some none else none
  | ['Z'] => some none
  | sign :: rest =>
    if sign == '+' || sign == '-' then
      let hours := takeDigits 2 rest
      if hours.isEmpty then none
      else
        match rest.drop hours.length with
        | [] => some (some ⟨sign == '-', hours, []⟩)
        | [':', a, b] =>
          if a.isDigit && b.isDigit then some (some ⟨sign == '-', hours, [a, b]⟩) else none
        | _ => none
    else none

/-- The time after a date: a letter T or blanks, then hours, minutes and seconds. -/
def timeForm? (chars : List Char) : Option TimeForm := do
  let chars ← match chars with
    | 'T' :: rest | 't' :: rest => some rest
    | c :: rest => if isSpaceTab c then some (rest.dropWhile isSpaceTab) else none
    | [] => none
  let hour := takeDigits 2 chars
  guard (!hour.isEmpty)
  let ':' :: a :: b :: ':' :: c :: d :: rest := chars.drop hour.length | none
  guard ([a, b, c, d].all Char.isDigit)
  let rest := match rest with
    | '.' :: fraction => fraction.dropWhile Char.isDigit
    | _ => rest
  let zone ← zoneForm? rest
  return ⟨hour, [a, b], [c, d], zone⟩

/-- A date alone has two digits each; with a time, one digit is enough. -/
def isTimestamp (chars : List Char) : Bool :=
  match dateForm? chars with
  | some d =>
    if d.rest.isEmpty then d.month.length == 2 && d.day.length == 2
    else (timeForm? d.rest).isSome
  | none => false

/-- Words for the truth values; they are compared in lower case once they are known to be one. -/
def boolWords : List String :=
  ["yes", "Yes", "YES", "no", "No", "NO", "true", "True", "TRUE", "false", "False", "FALSE",
    "on", "On", "ON", "off", "Off", "OFF"]

def nullWords : List String := ["", "~", "null", "Null", "NULL"]

/-- The tag of a plain scalar without a break at its end. -/
def Tag.ofWord (text : String) : Tag :=
  let chars := text.toList
  if boolWords.contains text then .bool
  else if isFloat chars then .float
  else if isInt chars then .int
  else if text == "<<" then .merge
  else if nullWords.contains text then .null
  else if isTimestamp chars then .timestamp
  else if text == "=" then .value
  else if ["!", "&", "*"].contains text then .unknown
  else .str

/-- The characters before a newline that ends them. -/
def withoutLastBreak (chars : List Char) : List Char :=
  match chars.reverse with
  | '\n' :: rest => rest.reverse
  | _ => chars

/-- The tag of a plain scalar, and of any scalar that is treated like one; a newline at the end of a
form does not count. -/
def Tag.ofPlain (text : String) : Tag :=
  if text == "\n" then .str else .ofWord (String.ofList (withoutLastBreak text.toList))

end Surveyor.Yaml
