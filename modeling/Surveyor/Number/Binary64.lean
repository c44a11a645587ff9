/-! # Binary floating-point numbers as exact fractions

A finite double is `± m · 2 ^ e` with natural `m`. `Binary64.parts?` takes a `Float` apart in this
way and `Binary64.nearest` rounds a fraction of naturals to the closest double, a tie going to the
even significand. All else about decimals is then arithmetic of natural numbers.
-/

namespace Surveyor

/-! ## Powers and sums of natural numbers -/

def pow2 (exponent : Nat) : Nat := Nat.pow 2 exponent

def pow10 (exponent : Nat) : Nat := Nat.pow 10 exponent

def sumOf {α : Type} (measure : α → Nat) : List α → Nat
  | [] => 0
  | a :: rest => measure a + sumOf measure rest

@[simp]
theorem sumOf_nil {α : Type} (measure : α → Nat) : sumOf measure [] = 0 := rfl

@[simp]
theorem sumOf_cons {α : Type} (measure : α → Nat) (a : α) (rest : List α) :
    sumOf measure (a :: rest) = measure a + sumOf measure rest := rfl

end Surveyor

namespace Surveyor.Binary64

/-! ## Doubles -/

/-- The exact value of a finite double: `± significand · 2 ^ exponent`. -/
structure Parts where
  negative : Bool
  significand : Nat
  exponent : Int
  deriving Repr

def parts? (x : Float) : Option Parts :=
  let bits := x.toBits.toNat
  let negative := bits ≥ pow2 63
  let field : Nat := bits / pow2 52 % 2048
  let fraction : Nat := bits % pow2 52
  if field == 2047 then none
  else if field == 0 then some ⟨negative, fraction, -1074⟩
  else some ⟨negative, fraction + pow2 52, (field : Int) - 1075⟩

/-- The quotient rounded to the nearest natural number, a tie going to the even one. -/
def roundQuotient (numerator denominator : Nat) : Nat :=
  let whole := numerator / denominator
  let twice := 2 * (numerator % denominator)
  if twice < denominator then whole
  else if denominator < twice then whole + 1
  else if whole % 2 == 0 then whole
  else whole + 1

/-- `n · 2 ^ e` as a fraction. -/
def scaleFraction (n : Nat) (e : Int) : Nat × Nat :=
  if e < 0 then (n, pow2 (-e).toNat) else (n * pow2 e.toNat, 1)

def infinity : Float := Float.ofBits (UInt64.ofNat (2047 * pow2 52))

def undefined : Float := Float.ofBits (UInt64.ofNat (4095 * pow2 51))

/-- The double closest to a fraction; beyond the largest double, infinity. -/
def nearest (numerator denominator : Nat) : Float :=
  if numerator == 0 then 0.0
  else
    let guess : Int := (numerator.log2 : Int) - denominator.log2 - 52
    -- The significand has 53 bits, one fewer if the guess is one too high.
    let scaled := fun (e : Int) =>
      let e := max e (-1074)
      if e < 0 then (numerator * pow2 (-e).toNat, denominator, e)
      else (numerator, denominator * pow2 e.toNat, e)
    let (n, d, e) :=
      let first := scaled guess
      if first.1 / first.2.1 < pow2 52 then scaled (guess - 1) else first
    let m := roundQuotient n d
    let (m, e) := if m == pow2 53 then (pow2 52, e + 1) else (m, e)
    let bits :=
      if m < pow2 52 then m
      else if e + 1075 ≥ 2047 then 2047 * pow2 52
      else (m - pow2 52) + (e + 1075).toNat * pow2 52
    Float.ofBits (UInt64.ofNat bits)

/-- The double closest to an integer. -/
def ofInt (n : Int) : Float :=
  if n < 0 then -(nearest n.natAbs 1) else nearest n.natAbs 1

/-- The order of an integer and a double; none for an undefined double. -/
def compareInt? (n : Int) (x : Float) : Option Ordering :=
  match parts? x with
  | some p =>
    let (numerator, denominator) := scaleFraction p.significand p.exponent
    let value : Int := if p.negative then -numerator else numerator
    some (compare (n * denominator) value)
  | none =>
    if x.isNaN then none
    else if x > 0.0 then some .lt
    else some .gt

/-- The integer closest to a finite double, a tie going to the even one. -/
def roundToInt? (x : Float) : Option Int :=
  (parts? x).map fun p =>
    let (numerator, denominator) := scaleFraction p.significand p.exponent
    let whole : Int := roundQuotient numerator denominator
    if p.negative then -whole else whole

/-- The double closest to the decimal with `places` places that is closest to the exact value, a
tie going to the even last place. -/
def roundPlaces (places : Nat) (x : Float) : Float :=
  match parts? x with
  | none => x
  | some p =>
    let (numerator, denominator) := scaleFraction p.significand p.exponent
    let scale := pow10 places
    let rounded := nearest (roundQuotient (numerator * scale) denominator) scale
    if p.negative then -rounded else rounded

end Surveyor.Binary64

/-! ## Reading decimal numerals -/

namespace Surveyor

def digitsToNat (digits : List Char) : Nat :=
  digits.foldl (fun n c => 10 * n + (c.toNat - 48)) 0

/-- The double closest to `± digits · 10 ^ exponent`. Exponents far outside the range of doubles
decide the result by themselves. -/
def decimalToFloat (negative : Bool) (digits : List Char) (exponent : Int) : Float :=
  let significant := digits.dropWhile (· == '0')
  let size : Int := significant.length + exponent
  let magnitude :=
    if significant.isEmpty then 0.0
    else if size > 400 then Binary64.infinity
    else if size < -400 then 0.0
    else if exponent < 0 then Binary64.nearest (digitsToNat significant) (pow10 (-exponent).toNat)
    else Binary64.nearest (digitsToNat significant * pow10 exponent.toNat) 1
  if negative then -magnitude else magnitude

end Surveyor
