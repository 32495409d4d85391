import Whittle.Failure

/-!
Moments: seconds since the beginning of 1970, written as a date and a time of day
in UTC with milliseconds. The seconds are first rounded to microseconds, a half
going to the even neighbour, and then cut.
-/

namespace Whittle.Moment

/-- The nearest integer to a double, a half going to the even neighbour. -/
def nearestInteger (value : Float) : Int :=
  match Decimal.parts value.toBits with
  | .finite negative magnitude =>
    let rounded : Int := Decimal.roundDiv magnitude.ratio.1 magnitude.ratio.2
    if negative then -rounded else rounded
  | _ => 0

/-- The whole seconds and the microseconds after them. -/
def split (seconds : Float) (whole : Int) : Int × Nat :=
  let micros := nearestInteger ((seconds - Decimal.ofInt whole) * 1000000.0)
  if 1000000 ≤ micros then (whole + 1, (micros - 1000000).toNat)
  else if micros < 0 then (whole - 1, (micros + 1000000).toNat)
  else (whole, micros.toNat)

/-- Whether an integer has no place in so many bits and a sign. -/
def exceeds (bits : Nat) (value : Int) : Bool :=
  let limit : Int := Nat.pow 2 bits
  value < -limit || limit ≤ value

/-- A day with its year counted in a word of 32 bits, of which the first half is below zero. -/
def inWord (day : Day) : Day :=
  { day with year := day.year.bmod (Nat.pow 2 32) }

def write (seconds : Float) : Except Failure String := do
  match Decimal.truncate? seconds with
  | none => throw (.moment (if seconds.isNaN then .notNumber else .outOfRange))
  | some whole =>
    let (whole, micros) := split seconds whole
    if exceeds 63 whole then throw (.moment .outOfRange)
    let day := Day.ofNumber (whole / 86400)
    if exceeds 31 (day.year - 1900) then throw (.disk (.met .overflow []))
    let day ← (inWord day).check.mapError .calendar
    let second := (whole % 86400).toNat
    return day.text ++ "T" ++ Text.padded 2 (second / 3600) ++ ":"
      ++ Text.padded 2 (second / 60 % 60) ++ ":" ++ Text.padded 2 (second % 60) ++ "."
      ++ Text.padded 3 (micros / 1000) ++ "Z"

end Whittle.Moment
