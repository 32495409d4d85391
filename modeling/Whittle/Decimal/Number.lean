import Whittle.Decimal.Shortest

/-!
Numbers of settings and records: integers of any size and doubles. They are
compared by their exact values; a NaN is below and above nothing.
-/

namespace Whittle.Decimal

/-- An integer or a double. -/
inductive Number where
  | int (value : Int)
  | float (value : Float)
deriving Repr, Inhabited

namespace Number

/-- The sign of a finite double times its distance from zero, as a ratio. -/
def ratioOf (negative : Bool) (magnitude : Magnitude) : Int × Nat :=
  let (numerator, denominator) := magnitude.ratio
  (if negative then -(numerator : Int) else numerator, denominator)

def lt : Number → Number → Bool
  | .int left, .int right => left < right
  | .float left, .float right => left < right
  | .float left, .int right =>
    match parts left.toBits with
    | .nan => false
    | .infinite negative => negative
    | .finite negative magnitude =>
      let (numerator, denominator) := ratioOf negative magnitude
      numerator < right * denominator
  | .int left, .float right =>
    match parts right.toBits with
    | .nan => false
    | .infinite negative => !negative
    | .finite negative magnitude =>
      let (numerator, denominator) := ratioOf negative magnitude
      left * denominator < numerator

def same : Number → Number → Bool
  | .int left, .int right => left == right
  | .float left, .float right => left == right
  | .float left, .int right | .int right, .float left =>
    match parts left.toBits with
    | .finite negative magnitude =>
      let (numerator, denominator) := ratioOf negative magnitude
      numerator == right * denominator
    | _ => false

def le (left right : Number) : Bool :=
  left.lt right || left.same right

end Number
end Whittle.Decimal
