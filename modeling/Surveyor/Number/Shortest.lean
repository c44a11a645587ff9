import Surveyor.Number.Binary64

/-! # The shortest decimal that reads back

Of all decimals that round to a given double, `shortest?` takes one with the fewest digits, and of
those the one closest to the exact value.
-/

namespace Surveyor.Binary64

/-- A decimal `digits · 10 ^ exponent`. -/
structure Decimal where
  digits : Nat
  exponent : Int

def digitCount (n : Nat) : Nat := (Nat.toDigits 10 n).length

/-- The largest `k` with `10 ^ k ≤ numerator / denominator`, for a positive fraction. -/
def decimalExponent (numerator denominator : Nat) : Int :=
  if denominator ≤ numerator then (digitCount (numerator / denominator) : Int) - 1
  else
    -- The smallest shift that lifts the fraction to one or above.
    let shift := digitCount denominator - digitCount numerator
    if denominator ≤ numerator * pow10 shift then -(shift : Int) else -(shift : Int) - 1

def Decimal.trim (d : Decimal) : Nat → Decimal
  | 0 => d
  | fuel + 1 =>
    if d.digits != 0 && d.digits % 10 == 0 then Decimal.trim ⟨d.digits / 10, d.exponent + 1⟩ fuel
    else d

/-- The decimal with `count` digits that lies closest to `4 m · 2 ^ (e - 2)` among those that round
to it, if there is one. `below` is the distance, in the unit `2 ^ (e - 2)`, of the lower end of the
numbers that round to the double; the upper end is two units above. -/
def closestWithDigits? (m : Nat) (e : Int) (below : Nat) (leading : Int) (count : Nat) :
    Option Decimal :=
  let places : Int := count - 1 - leading
  let e := e - 2
  let p := (if e < 0 then 1 else pow2 e.toNat) * (if places < 0 then 1 else pow10 places.toNat)
  let q := (if e < 0 then pow2 (-e).toNat else 1) * (if places < 0 then pow10 (-places).toNat else 1)
  let value := 4 * m * p
  let low := (4 * m - below) * p
  let high := (4 * m + 2) * p
  let closed := m % 2 == 0
  let inside := fun c => (low < c * q && c * q < high) || (closed && (low == c * q || c * q == high))
  let down := value / q
  let up := down + 1
  let pick := fun c => some (Decimal.mk c (-places))
  match inside down, inside up with
  | true, true =>
    let toDown := value - down * q
    let toUp := up * q - value
    if toDown < toUp then pick down
    else if toUp < toDown then pick up
    else if down % 2 == 0 then pick down
    else pick up
  | true, false => pick down
  | false, true => pick up
  | false, false => none

/-- The shortest decimal that rounds to a positive double `m · 2 ^ e`. -/
def shortestOf (m : Nat) (e : Int) : Decimal :=
  let (numerator, denominator) := scaleFraction m e
  let leading := decimalExponent numerator denominator
  let below := if m == pow2 52 && e > -1074 then 1 else 2
  let found := (List.range 17).findSome? fun k => closestWithDigits? m e below leading (k + 1)
  (found.getD ⟨m, e⟩).trim 17

structure Style where
  /-- Exponents of the leading digit that are written positionally. -/
  leastPositional : Int
  greatestPositional : Int
  infinity : String
  undefined : String

/-- The digits of `d` around a decimal point, at least one on either side. -/
def positional (digits : List Char) (leading : Int) : List Char :=
  if leading < 0 then
    '0' :: '.' :: (List.replicate (-leading - 1).toNat '0' ++ digits)
  else
    let before := leading.toNat + 1
    let whole := digits.take before ++ List.replicate (before - digits.length) '0'
    let fraction := digits.drop before
    whole ++ '.' :: (if fraction.isEmpty then ['0'] else fraction)

/-- The digits of `d` with one before the point and a signed exponent of at least two digits. -/
def exponential (digits : List Char) (leading : Int) : List Char :=
  let mark := if leading < 0 then ['e', '-'] else ['e', '+']
  let magnitude := Nat.toDigits 10 leading.natAbs
  let padded := if magnitude.length < 2 then '0' :: magnitude else magnitude
  let mantissa :=
    match digits with
    | [] => ['0']
    | [d] => [d]
    | d :: rest => d :: '.' :: rest
  mantissa ++ mark ++ padded

/-- A double in the shortest form that reads back. -/
def render (style : Style) (x : Float) : String :=
  match parts? x with
  | none =>
    if x.isNaN then style.undefined
    else if x < 0.0 then "-" ++ style.infinity
    else style.infinity
  | some p =>
    let sign := if p.negative then ['-'] else []
    if p.significand == 0 then String.ofList (sign ++ ['0', '.', '0'])
    else
      let d := shortestOf p.significand p.exponent
      let digits := Nat.toDigits 10 d.digits
      let leading := d.exponent + digits.length - 1
      let body :=
        if style.leastPositional ≤ leading && leading ≤ style.greatestPositional then
          positional digits leading
        else exponential digits leading
      String.ofList (sign ++ body)

/-- Running text: positional from `0.0001` up to below `10 ^ 16`. -/
def plainStyle : Style := ⟨-4, 15, "inf", "nan"⟩

end Surveyor.Binary64
