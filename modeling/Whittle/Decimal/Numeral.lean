import Whittle.Decimal.Double
import Whittle.Text.Blank
import Whittle.Text.Digit
import Whittle.Text.Hex

/-!
Numbers written by people: blanks around them, a sign, digits of any script with
single underscores between them and, for a decimal, a point, an exponent, or a
name for infinity and NaN. Integers may also be written to base 2, 8 or 16.
-/

namespace Whittle.Decimal

/-- The most digits an integer may be read from. -/
def digitLimit : Nat := 4300

/-- A blank becomes a space and a digit of any script the ASCII digit of its value. -/
def plainChar (char : Char) : Char :=
  if char.toNat < 128 then char
  else if Text.isBlank char then ' '
  else match Text.decimalValue? char with
    | some value => Char.ofNat (48 + value)
    | none => char

/-- The blanks that may stand around a number. -/
def isSpace (char : Char) : Bool :=
  char = ' ' || (9 ≤ char.toNat && char.toNat ≤ 13)

/-- The plain characters of a written number, without the blanks around it. -/
def plainChars (text : String) : List Char :=
  (((text.toList.map plainChar).dropWhile isSpace).reverse.dropWhile isSpace).reverse

def splitSign : List Char → Bool × List Char
  | '-' :: rest => (true, rest)
  | '+' :: rest => (false, rest)
  | chars => (false, chars)

/-- Removes the underscores, each of which must stand between two digits. -/
def dropUnderscores (previous : Char) : List Char → Option (List Char)
  | [] => some []
  | '_' :: next :: rest =>
    if previous.isDigit && next.isDigit then (dropUnderscores next rest).map (next :: ·) else none
  | '_' :: [] => none
  | char :: rest => (dropUnderscores char rest).map (char :: ·)

def digitsValue (digits : List Char) : Nat :=
  digits.foldl (fun value digit => value * 10 + (digit.toNat - 48)) 0

/-- An integer, or the number of its digits when they are too many. -/
inductive Reading where
  | integer (value : Int)
  | tooLong (digits : Nat)
  | malformed
deriving DecidableEq, Repr

/-- Reads an integer. The digits at its head are counted before what follows them is looked at, so
that too many of them are found first. -/
def readInteger (text : String) : Reading :=
  let (negative, body) := splitSign (plainChars text)
  let (grouped, rest) := body.span fun char => char.isDigit || char = '_'
  match dropUnderscores ' ' grouped with
  | none => .malformed
  | some digits =>
    if digitLimit < digits.length then .tooLong digits.length
    else if digits.isEmpty || !rest.isEmpty then .malformed
    else .integer (if negative then -(digitsValue digits : Int) else digitsValue digits)

/-- The letter that, after a zero, announces digits to base 2, 8 or 16. -/
def baseLetter (base : Nat) : Char :=
  if base = 2 then 'b' else if base = 8 then 'o' else 'x'

/-- The digits to base 2, 8 or 16 after their announcement, which may be left out. -/
def afterBase (base : Nat) : List Char → List Char
  | '0' :: letter :: digits =>
    if letter.toLower = baseLetter base then digits else '0' :: letter :: digits
  | digits => digits

def readBased? (base : Nat) (text : String) : Option Int := do
  let (negative, body) := splitSign (plainChars text)
  let digits ← (afterBase base body).mapM Text.hexValue?
  if digits.isEmpty || digits.any (base ≤ ·) then none
  let value := digits.foldl (fun value digit => value * base + digit) 0
  return if negative then -(value : Int) else value

/-- Reads an exponent: nothing, or a mark, a sign and digits. -/
def readExponent : List Char → Option Int
  | [] => some 0
  | mark :: rest =>
    let (negative, digits) := splitSign rest
    if (mark != 'e' && mark != 'E') || digits.isEmpty || !digits.all Char.isDigit then none
    else some (if negative then -(digitsValue digits : Int) else digitsValue digits)

/-- The double for a coefficient and an exponent that may be out of every range. -/
def ofWrittenDecimal (negative : Bool) (digits : List Char) (exponent : Int) : Float :=
  let coefficient := digitsValue digits
  if coefficient = 0 then nearest negative 0 1
  else if 400 < exponent + digits.length then
    Float.ofBits (UInt64.ofNat ((if negative then Nat.pow 2 63 else 0) + 2047 * Nat.pow 2 52))
  else if exponent + digits.length < -400 then nearest negative 0 1
  else ofDecimal negative coefficient exponent

/-- Reads an unsigned decimal with digits, a point and an exponent. -/
def readUnsigned (negative : Bool) (chars : List Char) : Option Float :=
  let whole := chars.takeWhile Char.isDigit
  let rest := chars.dropWhile Char.isDigit
  let (fraction, tail) :=
    match rest with
    | '.' :: more => (more.takeWhile Char.isDigit, more.dropWhile Char.isDigit)
    | _ => ([], rest)
  if whole.isEmpty && fraction.isEmpty then none
  else (readExponent tail).map fun exponent =>
    let digits := (whole ++ fraction).dropWhile (· == '0')
    ofWrittenDecimal negative digits (exponent - fraction.length)

def readDecimal (text : String) : Option Float :=
  let (negative, body) := splitSign (plainChars text)
  let lower := String.ofList (body.map Char.toLower)
  if lower = "inf" || lower = "infinity" then
    some (if negative then -(1.0 / 0.0) else 1.0 / 0.0)
  else if lower = "nan" then some (0.0 / 0.0)
  else (dropUnderscores ' ' body).bind (readUnsigned negative)

end Whittle.Decimal
