import Surveyor.Number.Numeral
import Surveyor.Text.LowerCase
import Surveyor.Yaml.Cursor

/-! # Numbers of a YAML text

Underscores are left out. A whole number may have a base of two, eight or sixteen, and both whole
numbers and doubles may be written to the base sixty, in parts between colons.
-/

namespace Surveyor.Yaml

/-- A whole number to a base, with the text of the fault if it is none. -/
def wholeNumber (base : Nat) (s : String) : Except YamlError Int :=
  (Numeral.whole base s).mapError fun fault => .impossible (fault.message base s)

def signOf (chars : List Char) : Bool × List Char :=
  match chars with
  | '-' :: rest => (true, rest)
  | '+' :: rest => (false, rest)
  | _ => (false, chars)

/-- The first digit of a number to the base sixty is the highest. -/
def sixtieths (parts : List Int) : Int := parts.foldl (fun n d => n * 60 + d) 0

def intOf (text : String) : Except YamlError Int := do
  let chars := text.toList.filter (· != '_')
  if chars.isEmpty then .error .emptyNumber
  let (isNegative, body) := signOf chars
  let n ←
    match body with
    | [] => .error .emptyNumber
    | ['0'] => pure 0
    | '0' :: 'b' :: digits => wholeNumber 2 (String.ofList digits)
    | '0' :: 'x' :: digits => wholeNumber 16 (String.ofList digits)
    | '0' :: _ => wholeNumber 8 (String.ofList body)
    | _ =>
      if body.contains ':' then do
        let parts ← (Text.splitChars ':' body).mapM fun part => wholeNumber 10 (String.ofList part)
        pure (sixtieths parts)
      else wholeNumber 10 (String.ofList body)
  return if isNegative then -n else n

def doubleNumber (s : String) : Except YamlError Float :=
  match Numeral.double? s with
  | some x => .ok x
  | none => .error (.impossible ("could not convert string to float: " ++ quoted s))

/-- The sum of the parts, from the last to the first, each with its power of sixty. The powers are
whole numbers; one that goes beyond every double is a fault. -/
def doubleSixtieths : List Float → Nat → Float → Except YamlError Float
  | [], _, total => .ok total
  | part :: rest, power, total =>
    let factor := Binary64.nearest power 1
    if factor == Binary64.infinity then .error (.tooLarge "int too large to convert to float")
    else doubleSixtieths rest (power * 60) (total + part * factor)

def floatOf (text : String) : Except YamlError Float := do
  let chars := (lower (Text.removeChar '_' text)).toList
  if chars.isEmpty then .error .emptyNumber
  let (isNegative, body) := signOf chars
  let x ←
    if body == ".inf".toList then pure Binary64.infinity
    else if body == ".nan".toList then return Binary64.undefined
    else if body.contains ':' then do
      let parts ← (Text.splitChars ':' body).mapM fun part => doubleNumber (String.ofList part)
      doubleSixtieths parts.reverse 1 0.0
    else doubleNumber (String.ofList body)
  return if isNegative then -x else x

end Surveyor.Yaml
