import Whittle.Decimal.Numeral
import Whittle.Value

/-!
Days and moments as they are written in a document: a year of four digits, a month
and a day, and maybe a time of day with a fraction and an offset from UTC.
-/

namespace Whittle.Value.Yaml.Timestamp

/-- The digits at the head of a list, at most `limit` of them, and the rest. -/
def takeDigits (limit : Nat) (chars : List Char) : List Char × List Char :=
  let digits := (chars.take limit).takeWhile Char.isDigit
  (digits, chars.drop digits.length)

/-- A number of at least `least` and at most `most` digits at the head, and the rest. -/
def number? (least most : Nat) (chars : List Char) : Option (Nat × List Char) :=
  let (digits, rest) := takeDigits most chars
  if digits.length < least then none else some (Decimal.digitsValue digits, rest)

def after? (expected : Char) : List Char → Option (List Char)
  | char :: rest => if char = expected then some rest else none
  | [] => none

def isGap (char : Char) : Bool :=
  char = ' ' || char = '\t'

/-- The rest after what stands between the day and the time of day. -/
def afterGap? : List Char → Option (List Char)
  | 'T' :: rest | 't' :: rest => some rest
  | char :: rest => if isGap char then some (rest.dropWhile isGap) else none
  | [] => none

/-- The microseconds of a fraction, which may have any number of digits, and the rest. -/
def fraction : List Char → Nat × List Char
  | '.' :: rest =>
    let digits := rest.takeWhile Char.isDigit
    (Decimal.digitsValue ((digits ++ List.replicate 6 '0').take 6), rest.drop digits.length)
  | chars => (0, chars)

/-- The offset in minutes that some characters are, all of them. -/
def offset? (chars : List Char) : Option (Option Int) := do
  match chars.dropWhile isGap with
  | [] => if chars.isEmpty then some none else none
  | ['Z'] => some (some 0)
  | sign :: rest =>
    if sign ≠ '+' ∧ sign ≠ '-' then none
    let (hours, rest) ← number? 1 2 rest
    let minutes ← match rest with
      | [] => some 0
      | ':' :: rest => do
        let (minutes, rest) ← number? 2 2 rest
        if rest.isEmpty then some minutes else none
      | _ => none
    let span : Int := hours * 60 + minutes
    return some (if sign = '-' then -span else span)

/-- The moment on a day that the characters after the day tell. -/
def stamp? (day : Day) (chars : List Char) : Option Stamp := do
  let (hour, rest) ← number? 1 2 (← afterGap? chars)
  let (minute, rest) ← number? 2 2 (← after? ':' rest)
  let (second, rest) ← number? 2 2 (← after? ':' rest)
  let (micros, rest) := fraction rest
  return { day, hour, minute, second, micros, offset := ← offset? rest }

/-- What was written: a day, or a moment. -/
inductive Written where
  | day (day : Day)
  | stamp (stamp : Stamp)

/-- Reads what was written; the calendar is not asked yet. -/
def readLine? (chars : List Char) : Option Written := do
  let (year, rest) ← number? 4 4 chars
  let (month, rest) ← number? 1 2 (← after? '-' rest)
  let (dayOfMonth, rest) ← number? 1 2 (← after? '-' rest)
  let day : Day := { year, month, day := dayOfMonth }
  if rest.isEmpty then return .day day
  return .stamp (← stamp? day rest)

def withoutNewline (chars : List Char) : List Char :=
  if chars.getLast? = some '\n' then chars.dropLast else chars

/-- Reads what was written, maybe with a newline at its end. -/
def read? (chars : List Char) : Option Written :=
  readLine? (withoutNewline chars)

/-- Whether a plain scalar is a day or a moment without being called one; a day alone needs two
digits for its month and two for its number. -/
def isPlain (chars : List Char) : Bool :=
  match readLine? chars with
  | some (.day _) => chars.length = 10
  | some (.stamp _) => true
  | none => false

def Written.toValue : Written → Except Calendar.Fault Value
  | .day found => found.check.map .day
  | .stamp found => found.check.map .stamp

end Whittle.Value.Yaml.Timestamp
