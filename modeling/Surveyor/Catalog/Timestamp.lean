import Surveyor.Number.Binary64
import Surveyor.Text.Basic
import Surveyor.Value.Access

/-! # Times of change

Times are kept in microseconds since 1970 and handed on as doubles in seconds, so that far from 1970
the last digits are those of the double.
-/

namespace Surveyor

structure Civil where
  year : Int
  month : Nat
  day : Nat
  hour : Nat
  minute : Nat
  second : Nat
  microsecond : Nat

namespace Timestamp

/-- A time in microseconds as a double in seconds: whole seconds and a fraction of them. -/
def seconds (microseconds : Int) : Float :=
  let whole := microseconds.fdiv 1000000
  let fraction := microseconds - whole * 1000000
  Binary64.ofInt whole + Binary64.nearest 1 1000000000 * Binary64.ofInt (fraction * 1000)

/-- The date of a day, counted from 1970-01-01: centuries, years and months of a calendar whose
years start in March. -/
def date (day : Int) : Int × Nat × Nat :=
  let z := day + 719468
  let era := z.fdiv 146097
  let dayOfEra := (z - era * 146097).toNat
  let yearOfEra := (dayOfEra - dayOfEra / 1460 + dayOfEra / 36524 - dayOfEra / 146096) / 365
  let dayOfYear := dayOfEra - (365 * yearOfEra + yearOfEra / 4 - yearOfEra / 100)
  let shifted := (5 * dayOfYear + 2) / 153
  let month := if shifted < 10 then shifted + 3 else shifted - 9
  let year := era * 400 + yearOfEra + (if month ≤ 2 then 1 else 0)
  (year, month, dayOfYear - (153 * shifted + 2) / 5 + 1)

/-- The nearest microsecond to a time in seconds, a tie going to the even one. The fraction of a
second is rounded by itself. -/
def roundMicroseconds (time : Float) : Int :=
  match Binary64.parts? time with
  | none => 0
  | some p =>
    let (numerator, denominator) := Binary64.scaleFraction p.significand p.exponent
    let whole := numerator / denominator
    -- The fraction of a double is a double again, and so is rounded once more when scaled.
    let scaled := Binary64.nearest (numerator % denominator) denominator * 1000000.0
    let micro : Int := whole * 1000000 + (Binary64.roundToInt? scaled).getD 0
    if p.negative then -micro else micro

/-- The civil time of a time in microseconds. -/
def civil (time : Int) : Civil :=
  let day := time.fdiv 86400000000
  let rest := (time - day * 86400000000).toNat
  let (year, month, dayOfMonth) := date day
  let second := rest / 1000000
  ⟨year, month, dayOfMonth, second / 3600, second / 60 % 60, second % 60, rest % 1000000⟩

/-- Is the time in a year of the calendar? -/
def isDated (time : Int) : Bool :=
  let year := (civil time).year
  1 ≤ year && year ≤ 9999

/-- What is said of a time in a year outside of the calendar. -/
def undated (time : Int) : String := "year " ++ toString (civil time).year ++ " is out of range"

def ofSeconds (time : Value) : Except ValueFault Int := do
  let whole ←
    match time with
    | .float _ | .int _ | .bool _ => time.whole
    | other => .error (other.notOfKind "cannot be interpreted as an integer")
  let microseconds :=
    match time with
    | .float x => roundMicroseconds x
    | _ => whole * 1000000
  if isDated microseconds then return microseconds else .error (.invalid (undated microseconds))

def padded (width n : Nat) : String :=
  let digits := Nat.toDigits 10 n
  String.ofList (List.replicate (width - digits.length) '0' ++ digits)

/-- `2020-09-13T12:26:40Z`, with microseconds if there are any. -/
def isoText (time : Int) : String :=
  let c := civil time
  padded 4 c.year.toNat ++ "-" ++ padded 2 c.month ++ "-" ++ padded 2 c.day ++ "T"
    ++ padded 2 c.hour ++ ":" ++ padded 2 c.minute ++ ":" ++ padded 2 c.second
    ++ (if c.microsecond == 0 then "" else "." ++ padded 6 c.microsecond) ++ "Z"

/-- `13.09.2020 12:26`. -/
def shortText (time : Int) : String :=
  let c := civil time
  padded 2 c.day ++ "." ++ padded 2 c.month ++ "." ++ toString c.year ++ " " ++ padded 2 c.hour
    ++ ":" ++ padded 2 c.minute

/-- `2020-09-13 12:26:40,000`. -/
def logText (time : Int) : String :=
  let c := civil time
  padded 4 c.year.toNat ++ "-" ++ padded 2 c.month ++ "-" ++ padded 2 c.day ++ " "
    ++ padded 2 c.hour ++ ":" ++ padded 2 c.minute ++ ":" ++ padded 2 c.second ++ ","
    ++ padded 3 (c.microsecond / 1000)

end Timestamp

end Surveyor
