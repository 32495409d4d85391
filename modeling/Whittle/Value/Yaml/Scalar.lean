import Whittle.Text.Base64
import Whittle.Text.Lower
import Whittle.Value.Convert
import Whittle.Value.Yaml.Timestamp

/-!
What a scalar means. A plain scalar tells its kind by its looks: a truth value, a
decimal, an integer, nothing, a day or a moment, or the text itself. Integers may be
written to base 2, 8, 10, 16 and 60. The looks do not promise a value: what a scalar
of a kind says may still be out of range. Byte strings are known by their tag only.
-/

namespace Whittle.Value.Yaml.Scalar

/-- The kinds of scalars. `merge` and `equals` are signs that only keys may be, and `mark` is a mark
that begins other tokens. -/
inductive Form where
  | bool | float | int | merge | null | timestamp | equals | mark | binary | text
deriving DecidableEq, Repr

def Form.name : Form → String
  | .bool => "bool"
  | .float => "float"
  | .int => "int"
  | .merge => "merge"
  | .null => "null"
  | .timestamp => "timestamp"
  | .equals => "value"
  | .mark => "yaml"
  | .binary => "binary"
  | .text => "str"

def Form.all : List Form :=
  [.bool, .float, .int, .merge, .null, .timestamp, .equals, .mark, .binary, .text]

def Form.isSign : Form → Bool
  | .merge | .equals | .mark => true
  | _ => false

/-! ### The looks of a plain scalar -/

def trueWords : List String :=
  ["yes", "Yes", "YES", "true", "True", "TRUE", "on", "On", "ON"]

def falseWords : List String :=
  ["no", "No", "NO", "false", "False", "FALSE", "off", "Off", "OFF"]

def nullWords : List String :=
  ["", "~", "null", "Null", "NULL"]

def toBool? (written : String) : Option Bool :=
  if trueWords.contains written then some true
  else if falseWords.contains written then some false
  else none

/-- A digit or a bar, which only groups digits. -/
def isGrouped (char : Char) : Bool :=
  char.isDigit || char = '_'

def ungroup (chars : List Char) : List Char :=
  chars.filter (· ≠ '_')

def parts (chars : List Char) : List (List Char) :=
  chars.splitOnP (· = ':')

/-- Whether characters are a part of a number to base 60, after the first. -/
def isSixtieth : List Char → Bool
  | [unit] => unit.isDigit
  | [ten, unit] => '0' ≤ ten && ten ≤ '5' && unit.isDigit
  | _ => false

/-- Whether characters are some digits to a base up to sixteen, bars among them. -/
def isBased (base : Nat) (chars : List Char) : Bool :=
  !chars.isEmpty && chars.all fun char => char = '_' || (Text.hexValue? char).any (· < base)

/-- Whether characters begin with a digit and go on with digits and bars. -/
def isWhole (chars : List Char) : Bool :=
  chars.head?.any Char.isDigit && chars.all isGrouped

/-- Whether characters are an integer without its sign. -/
def isUnsigned (chars : List Char) : Bool :=
  match chars with
  | '0' :: 'b' :: digits => isBased 2 digits
  | '0' :: 'x' :: digits => isBased 16 digits
  | ['0'] => true
  | '0' :: digits => isBased 8 digits
  | chars =>
    match parts chars with
    | whole :: others => isWhole whole && others.all isSixtieth
    | [] => false

def isInt (chars : List Char) : Bool :=
  isUnsigned (Decimal.splitSign chars).2

def isExponent : List Char → Bool
  | [] => true
  | mark :: sign :: digits =>
    (mark = 'e' || mark = 'E') && (sign = '+' || sign = '-') && !digits.isEmpty &&
      digits.all Char.isDigit
  | _ => false

/-- Whether characters are a decimal to base 10: digits and a point, and maybe an exponent; a sign
needs a digit before the point. -/
def isDecimal (signed : Bool) (chars : List Char) : Bool :=
  let (whole, rest) := chars.span isGrouped
  match rest with
  | '.' :: more =>
    let (fraction, exponent) := more.span isGrouped
    isExponent exponent &&
      (if whole.isEmpty then !signed && fraction.head?.any Char.isDigit
        else whole.head?.any Char.isDigit)
  | _ => false

/-- Whether characters are a decimal to base 60, whose last part has a point. -/
def isSixtyDecimal (chars : List Char) : Bool :=
  match chars.span (· ≠ '.') with
  | (before, '.' :: fraction) =>
    fraction.all isGrouped &&
      match parts before with
      | whole :: other :: others => isWhole whole && (other :: others).all isSixtieth
      | _ => false
  | _ => false

def isFloat (chars : List Char) : Bool :=
  let body := (Decimal.splitSign chars).2
  let signed := body.length < chars.length
  let word := String.ofList body
  [".inf", ".Inf", ".INF"].contains word ||
    (!signed && [".nan", ".NaN", ".NAN"].contains word) ||
    isDecimal signed body || isSixtyDecimal body

/-- The characters by whose looks the form is told: a newline at the end is passed over. -/
def looks (written : String) : List Char :=
  match Timestamp.withoutNewline written.toList with
  | [] => written.toList
  | chars => chars

def formOf (written : String) : Form :=
  let chars := looks written
  let word := String.ofList chars
  if (toBool? word).isSome then .bool
  else if isFloat chars then .float
  else if isInt chars then .int
  else if word = "<<" then .merge
  else if nullWords.contains word then .null
  else if Timestamp.isPlain chars then .timestamp
  else if word = "=" then .equals
  else if ["!", "&", "*"].contains word then .mark
  else .text

/-! ### The value of a scalar of a form -/

/-- The integer that characters write to base 2, 8 or 16. -/
def readBased (base : Nat) (chars : List Char) : Except Fault Int :=
  let written := String.ofList chars
  match Decimal.readBased? base written with
  | some value => .ok value
  | none => .error (.integerText base written)

def readTen (chars : List Char) : Except Fault Int :=
  (Value.text (String.ofList chars)).toInteger

def readDouble (chars : List Char) : Except Fault Float :=
  (Value.text (String.ofList chars)).toDecimal

/-- The integer that characters without bars and sign write. -/
def readUnsigned (chars : List Char) : Except Fault Int :=
  match chars with
  | [] => .error .emptyNumber
  | ['0'] => .ok 0
  | '0' :: 'b' :: digits => readBased 2 digits
  | '0' :: 'x' :: digits => readBased 16 digits
  | '0' :: _ => readBased 8 chars
  | chars => do
    let values ← (parts chars).mapM readTen
    return values.foldl (fun value part => value * 60 + part) 0

def readInt (written : String) : Except Fault Int := do
  match ungroup written.toList with
  | [] => .error .emptyNumber
  | chars =>
    let (negative, body) := Decimal.splitSign chars
    let value ← readUnsigned body
    return if negative then -value else value

/-- The double of the parts of a number to base 60, summed up from the last, which is worth `base`;
what a part is worth must be in range. -/
def sumSixtieths (total : Float) (base : Nat) : List Float → Except Fault Float
  | [] => .ok total
  | part :: rest => do
    let worth ← integerToDecimal base
    sumSixtieths (total + part * worth) (base * 60) rest

/-- The sign of a double and the characters after it, in lower case and without bars. -/
def doubleBody (written : String) : Option (Bool × List Char) :=
  match (Text.lower (String.ofList (ungroup written.toList))).toList with
  | [] => none
  | chars => some (Decimal.splitSign chars)

def nanName : List Char := ['.', 'n', 'a', 'n']

/-- Whether a scalar gives the double that is no number by its name. -/
def isNamedNaN (written : String) : Bool :=
  (doubleBody written).any fun body => body.2 = nanName

def readFloat (written : String) : Except Fault Float := do
  match doubleBody written with
  | none => .error .emptyNumber
  | some (negative, body) =>
    let value ←
      if body = ['.', 'i', 'n', 'f'] then pure (1.0 / 0.0)
      else if body = nanName then pure (0.0 / 0.0)
      else if body.contains ':' then do
        let values ← (parts body).mapM readDouble
        sumSixtieths 0.0 1 values.reverse
      else readDouble body
    return if negative then -value else value

def readBytes? (written : String) : Option Bytes :=
  if written.toList.all (·.toNat < 128) then Text.Base64.decode? written else none

/-- The value of a scalar of a form; a sign that only keys may be has none. -/
def read? (form : Form) (written : String) : Option (Except Fault Value) :=
  match form with
  | .bool =>
    let word := Text.lower written
    match toBool? word with
    | some truth => some (.ok (.bool truth))
    | none => some (.error (.missingKey word))
  | .float => some ((readFloat written).map .float)
  | .int => some ((readInt written).map .int)
  | .null => some (.ok .null)
  | .timestamp =>
    match Timestamp.read? written.toList with
    | some found => some (found.toValue.mapError .noDay)
    | none => some (.error (.noMember .null "groupdict"))
  | .binary => (readBytes? written).map fun bytes => .ok (.bytes bytes)
  | .text => some (.ok (.text written))
  | .merge | .equals | .mark => none

end Whittle.Value.Yaml.Scalar
