import Whittle.Text.Digit

/-!
Days of the calendar and moments on them, as they are written down. A day has a year
from 1 to 9999; a moment adds a time of day to the microsecond, and either lies at
an offset from UTC or leaves it open.
-/

namespace Whittle

/-- A day of the calendar. -/
structure Day where
  year : Int
  month : Nat
  day : Nat
deriving DecidableEq, Repr, Inhabited

/-- A moment as written: a day, a time of day and, if it is known, the offset from UTC in minutes.
-/
structure Stamp where
  day : Day
  hour : Nat
  minute : Nat
  second : Nat
  micros : Nat := 0
  offset : Option Int := none
deriving DecidableEq, Repr, Inhabited

namespace Calendar

/-- Why numbers make no day or no moment. -/
inductive Fault where
  | year (value : Int)
  | month
  | day
  | hour
  | minute
  | second
  | offset (minutes : Int)
deriving DecidableEq, Repr

def minutesPerDay : Int := 1440

/-- The written form of a span of minutes in messages, as days and the seconds after them. -/
def quotedSpan (minutes : Int) : String :=
  let days := minutes / minutesPerDay
  let seconds := minutes % minutesPerDay * 60
  let parts := (if days = 0 then [] else [s!"days={days}"]) ++
    (if seconds = 0 then [] else [s!"seconds={seconds}"])
  "datetime.timedelta(" ++ (if parts.isEmpty then "0" else ", ".intercalate parts) ++ ")"

def Fault.message : Fault → String
  | .year value => s!"year {value} is out of range"
  | .month => "month must be in 1..12"
  | .day => "day is out of range for month"
  | .hour => "hour must be in 0..23"
  | .minute => "minute must be in 0..59"
  | .second => "second must be in 0..59"
  | .offset minutes =>
    "offset must be a timedelta strictly between -timedelta(hours=24) and timedelta(hours=24), not "
      ++ quotedSpan minutes ++ "."

def isLeap (year : Int) : Bool :=
  year % 4 = 0 && (year % 100 ≠ 0 || year % 400 = 0)

def daysIn (year : Int) (month : Nat) : Nat :=
  if month = 2 then if isLeap year then 29 else 28
  else if month = 4 || month = 6 || month = 9 || month = 11 then 30
  else 31

end Calendar

namespace Day

/-- The day that lies so many days after the first of 1970. Years are counted from March, in groups
of 400. -/
def ofNumber (days : Int) : Day :=
  let shifted := days + 719468
  let era := shifted / 146097
  let dayOfEra := (shifted % 146097).toNat
  let yearOfEra := (dayOfEra - dayOfEra / 1460 + dayOfEra / 36524 - dayOfEra / 146096) / 365
  let dayOfYear := dayOfEra - (365 * yearOfEra + yearOfEra / 4 - yearOfEra / 100)
  let shiftedMonth := (5 * dayOfYear + 2) / 153
  let month := if shiftedMonth < 10 then shiftedMonth + 3 else shiftedMonth - 9
  { year := era * 400 + yearOfEra + (if month ≤ 2 then 1 else 0)
    month
    day := dayOfYear - (153 * shiftedMonth + 2) / 5 + 1 }

/-- The number of days after the first of 1970. -/
def number (day : Day) : Int :=
  let year := if day.month ≤ 2 then day.year - 1 else day.year
  let yearOfEra := year % 400
  let shiftedMonth := if day.month ≤ 2 then day.month + 9 else day.month - 3
  let dayOfYear : Int := (153 * shiftedMonth + 2) / 5 + day.day - 1
  year / 400 * 146097 + (yearOfEra * 365 + yearOfEra / 4 - yearOfEra / 100 + dayOfYear) - 719468

def check (day : Day) : Except Calendar.Fault Day := do
  if day.year < 1 ∨ 9999 < day.year then throw (.year day.year)
  if day.month < 1 ∨ 12 < day.month then throw .month
  if day.day < 1 ∨ Calendar.daysIn day.year day.month < day.day then throw .day
  return day

def text (day : Day) : String :=
  Text.padded 4 day.year.toNat ++ "-" ++ Text.padded 2 day.month ++ "-" ++ Text.padded 2 day.day

/-- The written form of a day inside another value. -/
def quoted (day : Day) : String :=
  s!"datetime.date({day.year}, {day.month}, {day.day})"

end Day

namespace Stamp

/-- The moment, if there is one: its offset is looked at first, then its day, then its time. -/
def check (stamp : Stamp) : Except Calendar.Fault Stamp := do
  if let some minutes := stamp.offset then
    if Calendar.minutesPerDay ≤ (minutes.natAbs : Int) then throw (.offset minutes)
  let _ ← stamp.day.check
  if 23 < stamp.hour then throw .hour
  if 59 < stamp.minute then throw .minute
  if 59 < stamp.second then throw .second
  return stamp

/-- The microseconds after the first of 1970, at UTC or where the offset is open. -/
def instant (stamp : Stamp) : Int :=
  let minutes := stamp.day.number * Calendar.minutesPerDay + stamp.hour * 60 + stamp.minute
    - stamp.offset.getD 0
  (minutes * 60 + stamp.second) * 1000000 + stamp.micros

/-- Whether both moments have an offset or both leave it open. -/
def isComparable (left right : Stamp) : Bool :=
  left.offset.isSome = right.offset.isSome

def same (left right : Stamp) : Bool :=
  left.isComparable right && left.instant = right.instant

def offsetText (minutes : Int) : String :=
  let sign := if minutes < 0 then "-" else "+"
  sign ++ Text.padded 2 (minutes.natAbs / 60) ++ ":" ++ Text.padded 2 (minutes.natAbs % 60)

def text (stamp : Stamp) : String :=
  let fraction := if stamp.micros = 0 then "" else "." ++ Text.padded 6 stamp.micros
  stamp.day.text ++ " " ++ Text.padded 2 stamp.hour ++ ":" ++ Text.padded 2 stamp.minute ++ ":"
    ++ Text.padded 2 stamp.second ++ fraction ++ (stamp.offset.map offsetText).getD ""

/-- The written form of an offset inside another value. -/
def quotedOffset (minutes : Int) : String :=
  if minutes = 0 then "datetime.timezone.utc"
  else "datetime.timezone(" ++ Calendar.quotedSpan minutes ++ ")"

/-- The written form of a moment inside another value; seconds and microseconds are left out if they
are zero. -/
def quoted (stamp : Stamp) : String :=
  let seconds := if stamp.second = 0 && stamp.micros = 0 then [] else [toString stamp.second]
  let micros := if stamp.micros = 0 then [] else [toString stamp.micros]
  let zone := stamp.offset.toList.map fun minutes => "tzinfo=" ++ quotedOffset minutes
  let numbers := [toString stamp.day.year, toString stamp.day.month, toString stamp.day.day,
    toString stamp.hour, toString stamp.minute]
  "datetime.datetime(" ++ ", ".intercalate (numbers ++ seconds ++ micros ++ zone) ++ ")"

end Stamp
end Whittle
