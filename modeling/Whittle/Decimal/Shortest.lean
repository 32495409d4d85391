import Whittle.Decimal.Double

/-!
The shortest decimal of a double: the fewest digits that read back as the same
double, and of those the nearest. It is written positionally from `1e-4` up to
`1e16`, with a point in every case, and with an exponent beyond.
-/

namespace Whittle.Decimal

/-- The reals that round to a magnitude, in quarters of its last place. -/
structure Interval where
  low : Nat
  high : Nat
  closed : Bool
deriving DecidableEq, Repr

/-- The interval of a magnitude; below a power of two the lower half is narrower. -/
def Magnitude.interval (magnitude : Magnitude) : Interval :=
  let narrow := magnitude.mantissa == Nat.pow 2 52 && -1074 < magnitude.exponent
  { low := 4 * magnitude.mantissa - (if narrow then 1 else 2)
    high := 4 * magnitude.mantissa + 2
    closed := magnitude.mantissa % 2 == 0 }

/-- Whether `coefficient · 10 ^ power` reads back as the magnitude. -/
def Magnitude.contains (magnitude : Magnitude) (coefficient : Nat) (power : Int) : Bool :=
  let interval := magnitude.interval
  let unit := magnitude.exponent - 2
  let point := coefficient * Nat.pow 10 power.toNat * Nat.pow 2 (-unit).toNat
  let scale := Nat.pow 10 (-power).toNat * Nat.pow 2 unit.toNat
  if interval.closed then interval.low * scale ≤ point && point ≤ interval.high * scale
  else interval.low * scale < point && point < interval.high * scale

def digitCount (value : Nat) : Nat :=
  (Nat.toDigits 10 value).length

/-- The power of ten just above a magnitude. -/
def Magnitude.decimalExponent (magnitude : Magnitude) : Int :=
  let (numerator, denominator) := magnitude.ratio
  if denominator ≤ numerator then digitCount (numerator / denominator)
  else
    let shift := digitCount denominator
    (digitCount (numerator * Nat.pow 10 shift / denominator) : Int) - shift

/-- The point on the grid of `power` that reads back and lies nearest, if there is one. -/
def Magnitude.onGrid? (magnitude : Magnitude) (power : Int) : Option Nat :=
  let (numerator, denominator) := magnitude.ratio
  let top := numerator * Nat.pow 10 (-power).toNat
  let bottom := denominator * Nat.pow 10 power.toNat
  let below := top / bottom
  let preferred := roundDiv top bottom
  let other := if preferred = below then below + 1 else below
  if magnitude.contains preferred power then some preferred
  else if magnitude.contains other power then some other
  else none

/-- Tries grids with ever more digits. -/
def Magnitude.shortestFrom (magnitude : Magnitude) (power : Int) : Nat → Nat × Int
  | 0 => (magnitude.mantissa, magnitude.exponent)
  | tries + 1 =>
    match magnitude.onGrid? power with
    | some coefficient => (coefficient, power)
    | none => magnitude.shortestFrom (power - 1) tries

/-- The shortest decimal of a magnitude, as a coefficient and a power of ten. -/
def Magnitude.shortest (magnitude : Magnitude) : Nat × Int :=
  magnitude.shortestFrom (magnitude.decimalExponent - 1) 17

def dropTrailingZeros (digits : List Char) : List Char :=
  let kept := (digits.reverse.dropWhile (· == '0')).reverse
  if kept.isEmpty then ['0'] else kept

/-- Writes digits whose point stands after `point` of them. -/
def layOut (digits : List Char) (point : Int) : List Char :=
  if -4 < point && point ≤ 16 then
    if point ≤ 0 then
      '0' :: '.' :: List.replicate (-point).toNat '0' ++ digits
    else if (digits.length : Int) ≤ point then
      digits ++ List.replicate (point.toNat - digits.length) '0' ++ ['.', '0']
    else
      digits.take point.toNat ++ '.' :: digits.drop point.toNat
  else
    let exponent := point - 1
    let size := Nat.toDigits 10 exponent.natAbs
    let shown := if size.length < 2 then '0' :: size else size
    let tail := 'e' :: (if exponent < 0 then '-' else '+') :: shown
    match digits with
    | [] => tail
    | [digit] => digit :: tail
    | digit :: more => digit :: '.' :: more ++ tail

def Magnitude.write (negative : Bool) (magnitude : Magnitude) : String :=
  let body :=
    if magnitude.mantissa = 0 then ['0', '.', '0']
    else
      let (coefficient, power) := magnitude.shortest
      let digits := Nat.toDigits 10 coefficient
      layOut (dropTrailingZeros digits) (digits.length + power)
  String.ofList (if negative then '-' :: body else body)

/-- The texts of the doubles that are no numbers. -/
structure Specials where
  nan : String
  infinity : String

/-- The text of a double, given the texts of NaN and infinity. -/
def writeWith (specials : Specials) (value : Float) : String :=
  match parts value.toBits with
  | .nan => specials.nan
  | .infinite negative => if negative then "-" ++ specials.infinity else specials.infinity
  | .finite negative magnitude => magnitude.write negative

/-- The text of a double in messages: `nan` and `inf` beside the numbers. -/
def write (value : Float) : String :=
  writeWith ⟨"nan", "inf"⟩ value

end Whittle.Decimal
