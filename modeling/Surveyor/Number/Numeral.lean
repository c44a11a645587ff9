import Surveyor.Json.Reader
import Surveyor.Number.Binary64
import Surveyor.Text.Basic
import Surveyor.Text.CodePoint
import Surveyor.Text.Quoted

/-! # Numerals as people write them

Blanks around a numeral, a sign, single underscores between digits, a letter that names the base and
the decimal digits of any script are accepted.
-/

namespace Surveyor

inductive NumeralError where
  | invalid
  | tooManyDigits (count : Nat)
  /-- The number has too many digits to be written. -/
  | tooLong
  deriving DecidableEq, Repr

/-- The fault of a numeral to a base; at most 200 characters of it are quoted. -/
def NumeralError.message (base : Nat) (text : String) : NumeralError → String
  | .invalid =>
    "invalid literal for int() with base " ++ toString base ++ ": "
      ++ String.ofList ((quoted text).toList.take 200)
  | .tooManyDigits count =>
    "Exceeds the limit (4300 digits) for integer string conversion: value has " ++ toString count
      ++ " digits; use sys.set_int_max_str_digits() to increase the limit"
  | .tooLong =>
    "Exceeds the limit (4300 digits) for integer string conversion; "
      ++ "use sys.set_int_max_str_digits() to increase the limit"

namespace Numeral

/-- Blanks around a numeral; the ASCII separators of records do not count. -/
def isPadding (c : Char) : Bool :=
  if c.toNat < 128 then c == ' ' || (9 ≤ c.toNat && c.toNat ≤ 13) else isBlank c

def digit? (base : Nat) (c : Char) : Option Nat :=
  let value :=
    match decimalDigit? c with
    | some d => some d
    | none =>
      if 'a' ≤ c && c ≤ 'z' then some (c.toNat - 'a'.toNat + 10)
      else if 'A' ≤ c && c ≤ 'Z' then some (c.toNat - 'A'.toNat + 10)
      else none
  value.filter (· < base)

/-- The digits at the start of a list, between any two of which one underscore may stand, and what
follows; nothing if an underscore stands anywhere else among them. -/
def digitRun? (base : Nat) : List Char → Option (List Nat × List Char)
  | [] => some ([], [])
  | '_' :: _ => none
  | c :: '_' :: rest =>
    match digit? base c with
    | none => some ([], c :: '_' :: rest)
    | some d =>
      match digitRun? base rest with
      | some (e :: more, after) => some (d :: e :: more, after)
      | _ => none
  | c :: rest =>
    match digit? base c with
    | none => some ([], c :: rest)
    | some d => (digitRun? base rest).map fun (digits, after) => (d :: digits, after)

/-- The letter that names a base after a zero. -/
def baseLetter (base : Nat) (c : Char) : Bool :=
  match base with
  | 2 => c == 'b' || c == 'B'
  | 8 => c == 'o' || c == 'O'
  | 16 => c == 'x' || c == 'X'
  | _ => false

/-- The numeral without a zero and a letter that name its base. -/
def withoutBase (base : Nat) (chars : List Char) : List Char :=
  match chars with
  | '0' :: c :: rest =>
    if baseLetter base c then
      match rest with
      | '_' :: digits => digits
      | _ => rest
    else chars
  | _ => chars

/-- The whole number a text writes to a base. The number of decimal digits is looked at before what
follows them. -/
def whole (base : Nat) (s : String) : Except NumeralError Int :=
  let body := Text.stripChars isPadding s.toList
  let (isNegative, body) := match body with
    | '-' :: rest => (true, rest)
    | '+' :: rest => (false, rest)
    | _ => (false, body)
  match digitRun? base (withoutBase base body) with
  | none => .error .invalid
  | some (digits, after) =>
    if base == 10 && Json.maxDigits < digits.length then .error (.tooManyDigits digits.length)
    else if digits.isEmpty || !after.isEmpty then .error .invalid
    else
      let n : Nat := digits.foldl (fun n d => n * base + d) 0
      .ok (if isNegative then -(n : Int) else n)

def decimalText (n : Int) : Except NumeralError String :=
  if pow10 Json.maxDigits ≤ n.natAbs then .error .tooLong else .ok (toString n)

def leadingDigits (chars : List Char) : List Char × List Char :=
  let (digits, rest) := chars.span fun c => (decimalDigit? c).isSome
  (digits.map fun c => Char.ofNat (48 + (decimalDigit? c).getD 0), rest)

def exponent? (chars : List Char) : Option Int :=
  match chars with
  | [] => some 0
  | e :: rest =>
    if e == 'e' || e == 'E' then
      let (isNegative, rest) := match rest with
        | '-' :: rest => (true, rest)
        | '+' :: rest => (false, rest)
        | _ => (false, rest)
      let (digits, after) := leadingDigits rest
      if digits.isEmpty || !after.isEmpty then none
      else
        let size : Int := digitsToNat ((digits.dropWhile (· == '0')).take 10)
        some (if isNegative then -size else size)
    else none

/-- The double a text without underscores writes. -/
def double? (s : String) : Option Float :=
  let body := Text.stripChars isPadding s.toList
  let (isNegative, body) := match body with
    | '-' :: rest => (true, rest)
    | '+' :: rest => (false, rest)
    | _ => (false, body)
  let word := String.ofList (body.map Char.toLower)
  let signed := fun (x : Float) => if isNegative then -x else x
  if word == "inf" || word == "infinity" then some (signed Binary64.infinity)
  else if word == "nan" then some (signed Binary64.undefined)
  else
    let (whole, rest) := leadingDigits body
    let (fraction, rest) := match rest with
      | '.' :: rest => leadingDigits rest
      | _ => ([], rest)
    if whole.isEmpty && fraction.isEmpty then none
    else
      (exponent? rest).map fun exponent =>
        decimalToFloat isNegative (whole ++ fraction) (exponent - fraction.length)

end Numeral

end Surveyor
