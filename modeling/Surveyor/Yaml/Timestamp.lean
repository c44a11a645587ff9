import Surveyor.Number.Binary64
import Surveyor.Yaml.Cursor
import Surveyor.Yaml.Tag

/-! # Times of a YAML text -/

namespace Surveyor.Yaml

def isLeapYear (year : Nat) : Bool := (year % 4 == 0 && year % 100 != 0) || year % 400 == 0

def daysInMonth (year month : Nat) : Nat :=
  if month == 2 then (if isLeapYear year then 29 else 28)
  else if [4, 6, 9, 11].contains month then 30 else 31

/-- The distance of a time zone from the meridian in the form of days and seconds. -/
def distanceText (seconds : Int) : String :=
  let days := seconds.fdiv 86400
  let rest := seconds - days * 86400
  let parts := (if days == 0 then [] else ["days=" ++ toString days])
    ++ (if rest == 0 then [] else ["seconds=" ++ toString rest])
  "datetime.timedelta(" ++ Text.join ", " parts ++ ")"

def zoneFault? (zone : ZoneForm) : Option String :=
  let size : Int := digitsToNat zone.hours * 3600 + digitsToNat zone.minutes * 60
  if size < 86400 then none
  else
    some ("offset must be a timedelta strictly between -timedelta(hours=24) and "
      ++ "timedelta(hours=24), not " ++ distanceText (if zone.isNegative then -size else size) ++ ".")

def dateFault? (d : DateForm) : Option String :=
  let year := digitsToNat d.year
  let month := digitsToNat d.month
  let day := digitsToNat d.day
  if year == 0 then some "year 0 is out of range"
  else if month == 0 || 12 < month then some "month must be in 1..12"
  else if day == 0 || daysInMonth year month < day then some "day is out of range for month"
  else none

def timeFault? (t : TimeForm) : Option String :=
  if 23 < digitsToNat t.hour then some "hour must be in 0..23"
  else if 59 < digitsToNat t.minute then some "minute must be in 0..59"
  else if 59 < digitsToNat t.second then some "second must be in 0..59"
  else none

/-- The fault of a timestamp: of its zone, then of its date, then of its time. A newline at its end
does not count. -/
def timestampFault? (text : String) : Except YamlError (Option String) :=
  match dateForm? (withoutLastBreak text.toList) with
  | none => .error .noTimestamp
  | some d =>
    if d.rest.isEmpty then .ok (dateFault? d)
    else
      match timeForm? d.rest with
      | none => .error .noTimestamp
      | some t => .ok (((t.zone.bind zoneFault?).or (dateFault? d)).or (timeFault? t))

def checkTimestamp (text : String) : Except YamlError Unit := do
  match ← timestampFault? text with
  | some reason => .error (.impossible reason)
  | none => return ()

end Surveyor.Yaml
