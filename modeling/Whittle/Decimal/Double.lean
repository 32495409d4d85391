/-!
Double-precision numbers as exact quantities: a finite one is `mantissa` times a
power of two, and every ratio of naturals has a nearest one, a tie going to the
even mantissa.
-/

namespace Whittle.Decimal

/-- A finite double without its sign: `mantissa · 2 ^ exponent`. -/
structure Magnitude where
  mantissa : Nat
  exponent : Int
deriving DecidableEq, Repr

/-- A double taken apart. -/
inductive Parts where
  | nan
  | infinite (negative : Bool)
  | finite (negative : Bool) (magnitude : Magnitude)
deriving DecidableEq, Repr

def parts (bits : UInt64) : Parts :=
  let word := bits.toNat
  let negative := word / Nat.pow 2 63 == 1
  let biased : Nat := word / Nat.pow 2 52 % 2048
  let fraction := word % Nat.pow 2 52
  if biased = 2047 then
    if fraction = 0 then .infinite negative else .nan
  else if biased = 0 then .finite negative ⟨fraction, -1074⟩
  else .finite negative ⟨fraction + Nat.pow 2 52, (biased : Int) - 1075⟩

/-- The quotient rounded to nearest, a half going to the even neighbour. -/
def roundDiv (numerator denominator : Nat) : Nat :=
  let quotient := numerator / denominator
  let twice := 2 * (numerator % denominator)
  if twice < denominator then quotient
  else if denominator < twice then quotient + 1
  else if quotient % 2 = 0 then quotient
  else quotient + 1

def Magnitude.ratio (magnitude : Magnitude) : Nat × Nat :=
  (magnitude.mantissa * Nat.pow 2 magnitude.exponent.toNat, Nat.pow 2 (-magnitude.exponent).toNat)

/-- The bits of the double nearest to a ratio, without a sign. -/
def nearestBits (numerator denominator : Nat) : Nat :=
  if numerator = 0 || denominator = 0 then 0
  else
    let guess : Int := (numerator.log2 : Int) - denominator.log2 - 53
    let scaled (exponent : Int) : Nat × Nat :=
      (numerator * Nat.pow 2 (-exponent).toNat, denominator * Nat.pow 2 exponent.toNat)
    let fits := (scaled guess).1 / (scaled guess).2 < Nat.pow 2 53
    let exponent := max (-1074) (if fits then guess else guess + 1)
    let mantissa := roundDiv (scaled exponent).1 (scaled exponent).2
    if 971 < exponent then 2047 * Nat.pow 2 52
    else if mantissa < Nat.pow 2 52 then mantissa
    else min ((exponent + 1074).toNat * Nat.pow 2 52 + mantissa) (2047 * Nat.pow 2 52)

/-- The double nearest to a ratio, with a sign. -/
def nearest (negative : Bool) (numerator denominator : Nat) : Float :=
  let bits := nearestBits numerator denominator
  Float.ofBits (UInt64.ofNat (if negative then bits + Nat.pow 2 63 else bits))

def ofInt (value : Int) : Float :=
  nearest (value < 0) value.natAbs 1

def ofDecimal (negative : Bool) (coefficient : Nat) (exponent : Int) : Float :=
  nearest negative (coefficient * Nat.pow 10 exponent.toNat) (Nat.pow 10 (-exponent).toNat)

/-- A double rounded to `places` decimal places, a half going to the even neighbour. -/
def roundPlaces (places : Nat) (value : Float) : Float :=
  match parts value.toBits with
  | .finite negative magnitude =>
    let (numerator, denominator) := magnitude.ratio
    nearest negative (roundDiv (numerator * Nat.pow 10 places) denominator) (Nat.pow 10 places)
  | _ => value

def truncate? (value : Float) : Option Int :=
  match parts value.toBits with
  | .finite negative magnitude =>
    let whole : Int := (magnitude.ratio.1 / magnitude.ratio.2 : Nat)
    some (if negative then -whole else whole)
  | _ => none

end Whittle.Decimal
