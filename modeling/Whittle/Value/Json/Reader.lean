import Whittle.Decimal.Numeral
import Whittle.Value

/-!
Reading JSON. The reader also takes `NaN`, `Infinity` and `-Infinity`; of two
fields of one name the last counts. A text that is no JSON, or that nests values too
deep, has one fault, with the character at which reading stops.
-/

namespace Whittle.Value.Json

/-- What is wrong at the place where reading stops. -/
inductive Problem where
  | byteOrderMark
  | value
  | name
  | colon
  | comma
  | extra
  | unterminated
  | control
  | escape
  | unicodeEscape
  | tooManyDigits (digits : Nat)
  | tooDeep (form : String)
deriving DecidableEq, Repr

def Problem.message : Problem → String
  | .byteOrderMark => "Unexpected UTF-8 BOM (decode using utf-8-sig)"
  | .value => "Expecting value"
  | .name => "Expecting property name enclosed in double quotes"
  | .colon => "Expecting ':' delimiter"
  | .comma => "Expecting ',' delimiter"
  | .extra => "Extra data"
  | .unterminated => "Unterminated string starting at"
  | .control => "Invalid control character at"
  | .escape => "Invalid \\escape"
  | .unicodeEscape => "Invalid \\uXXXX escape"
  | .tooManyDigits digits =>
    s!"Exceeds the limit ({Decimal.digitLimit} digits) for integer string conversion: "
      ++ s!"value has {digits} digits; use sys.set_int_max_str_digits() to increase the limit"
  | .tooDeep form =>
    s!"maximum recursion depth exceeded while decoding a JSON {form} from a unicode string"

def Problem.isPlaceless : Problem → Bool
  | .tooManyDigits _ | .tooDeep _ => true
  | _ => false

/-- A problem and the number of characters before it. -/
structure Stop where
  problem : Problem
  position : Nat
deriving DecidableEq, Repr

/-- A fault of a text: the problem, and its line, column and character. -/
structure Fault where
  problem : Problem
  line : Nat
  column : Nat
  position : Nat
deriving DecidableEq, Repr

def Fault.message (fault : Fault) : String :=
  if fault.problem.isPlaceless then fault.problem.message
  else fault.problem.message
    ++ s!": line {fault.line} column {fault.column} (char {fault.position})"

/-- The characters still to read, and how many are read. -/
structure Cursor where
  rest : List Char
  position : Nat
deriving Repr

def Cursor.skip (cursor : Cursor) (count : Nat) : Cursor :=
  ⟨cursor.rest.drop count, cursor.position + count⟩

def isSpace (char : Char) : Bool :=
  char = ' ' || char = '\t' || char = '\n' || char = '\r'

def Cursor.skipSpace (cursor : Cursor) : Cursor :=
  cursor.skip (cursor.rest.takeWhile isSpace).length

/-- The character that a letter after a backslash means. -/
def escaped? : Char → Option Char
  | '"' => some '"'
  | '\\' => some '\\'
  | '/' => some '/'
  | 'b' => some (Char.ofNat 8)
  | 'f' => some (Char.ofNat 12)
  | 'n' => some '\n'
  | 'r' => some '\r'
  | 't' => some '\t'
  | _ => none

/-- The unit after `\u`, of which four digits and one more character must be there. -/
def readUnit (position : Nat) (rest : List Char) : Except Stop Nat :=
  if (rest.drop 4).isEmpty then .error ⟨.unicodeEscape, position⟩
  else match Text.hexNumber? (rest.take 4) with
    | some unit => .ok unit
    | none => .error ⟨.unicodeEscape, position⟩

/-- The second unit of a pair, if one is written here and enough characters follow it. -/
def readSecondUnit? (position : Nat) : List Char → Except Stop (Option Nat)
  | '\\' :: 'u' :: rest =>
    if (rest.drop 4).isEmpty then .ok none
    else match Text.hexNumber? (rest.take 4) with
      | some unit => .ok (some unit)
      | none => .error ⟨.unicodeEscape, position + 1⟩
  | _ => .ok none

/-- The characters of a text, the last one first, with one more code point. -/
def hold (code : Nat) (read : List Char) : List Char :=
  (Text.ofCode code).reverse ++ read

/-- Reads a text from after its opening quote, which stands at `opening`. -/
def readText (opening : Nat) (read : List Char) (position : Nat) :
    List Char → Except Stop (String × Cursor)
  | [] => .error ⟨.unterminated, opening⟩
  | '"' :: rest => .ok (String.ofList read.reverse, ⟨rest, position + 1⟩)
  | '\\' :: [] => .error ⟨.unterminated, opening⟩
  | '\\' :: 'u' :: rest => do
    let unit ← readUnit (position + 1) rest
    let second ←
      if Text.isHigh unit then readSecondUnit? (position + 6) (rest.drop 4) else pure none
    match second with
    | some low =>
      if Text.isLow low then
        readText opening (Text.pairChar unit low :: read) (position + 12) (rest.drop 10)
      else
        readText opening (hold unit read) (position + 6) (rest.drop 4)
    | none => readText opening (hold unit read) (position + 6) (rest.drop 4)
  | '\\' :: char :: rest =>
    match escaped? char with
    | some meant => readText opening (meant :: read) (position + 2) rest
    | none => .error ⟨.escape, position⟩
  | char :: rest =>
    if char.toNat < 32 then .error ⟨.control, position⟩
    else if char = Text.mark then readText opening (hold char.toNat read) (position + 1) rest
    else readText opening (char :: read) (position + 1) rest
termination_by chars => chars.length
decreasing_by all_goals simp <;> omega

def digitsAt (chars : List Char) : List Char :=
  chars.takeWhile fun char => '0' ≤ char && char ≤ '9'

/-- The length of a point and the digits after it, zero if there are none. -/
def fractionLength : List Char → Nat
  | '.' :: rest => if (digitsAt rest).isEmpty then 0 else (digitsAt rest).length + 1
  | _ => 0

/-- The length of an exponent, zero if there is none. -/
def exponentLength : List Char → Nat
  | mark :: rest =>
    let sign := match rest with
      | '+' :: _ | '-' :: _ => 1
      | _ => 0
    let digits := digitsAt (rest.drop sign)
    if (mark = 'e' || mark = 'E') && !digits.isEmpty then 1 + sign + digits.length else 0
  | [] => 0

def readNumber (cursor : Cursor) : Except Stop (Value × Cursor) :=
  let sign := if cursor.rest.head? = some '-' then 1 else 0
  let body := cursor.rest.drop sign
  let digits := digitsAt body
  let whole := if digits.head? = some '0' then ['0'] else digits
  if whole.isEmpty then .error ⟨.value, cursor.position⟩
  else
    let fraction := fractionLength (body.drop whole.length)
    let exponent := exponentLength (body.drop (whole.length + fraction))
    let length := sign + whole.length + fraction + exponent
    let written := String.ofList (cursor.rest.take length)
    if fraction + exponent = 0 then
      if Decimal.digitLimit < whole.length then
        .error ⟨.tooManyDigits whole.length, cursor.position⟩
      else
        let value : Int := Decimal.digitsValue whole
        .ok (.int (if sign = 1 then -value else value), cursor.skip length)
    else
      .ok (.float ((Decimal.readDecimal written).getD 0.0), cursor.skip length)

def readWord? (cursor : Cursor) : Option (Value × Cursor) :=
  let words : List (String × Value) := [
    ("null", .null), ("true", .bool true), ("false", .bool false), ("NaN", .float (0.0 / 0.0)),
    ("Infinity", .float (1.0 / 0.0)), ("-Infinity", .float (-(1.0 / 0.0)))]
  (words.find? fun word => word.1.toList.isPrefixOf cursor.rest).map fun word =>
    (word.2, cursor.skip word.1.length)

/-- How many values may stand inside each other. -/
def depthLimit : Nat := 989

mutual

/-- Reads a value; `fuel` bounds the number of nested calls, `depth` the lists and mappings that may
still open inside each other. -/
def readValue (fuel depth : Nat) (cursor : Cursor) : Except Stop (Value × Cursor) :=
  match fuel, cursor.rest with
  | 0, _ => .error ⟨.value, cursor.position⟩
  | _ + 1, '"' :: rest => do
    let (value, after) ← readText cursor.position [] (cursor.position + 1) rest
    return (.text value, after)
  | fuel + 1, '[' :: _ => do
    if depth = 0 then throw ⟨.tooDeep "array", cursor.position⟩
    let inside := (cursor.skip 1).skipSpace
    if inside.rest.head? = some ']' then return (.list [], inside.skip 1)
    let (items, after) ← readItems fuel (depth - 1) [] inside
    return (.list items, after)
  | fuel + 1, '\x7b' :: _ => do
    if depth = 0 then throw ⟨.tooDeep "object", cursor.position⟩
    let inside := (cursor.skip 1).skipSpace
    if inside.rest.head? = some '\x7d' then return (.map [], inside.skip 1)
    let (entries, after) ← readEntries fuel (depth - 1) [] inside
    return (.map entries, after)
  | _ + 1, _ =>
    match readWord? cursor with
    | some result => .ok result
    | none => readNumber cursor

/-- Reads the items of a list up to its end, after those `read` in reverse order. -/
def readItems (fuel depth : Nat) (read : List Value) (cursor : Cursor) :
    Except Stop (List Value × Cursor) :=
  match fuel with
  | 0 => .error ⟨.value, cursor.position⟩
  | fuel + 1 => do
    let (item, after) ← readValue fuel depth cursor
    let next := after.skipSpace
    match next.rest with
    | ']' :: _ => return ((item :: read).reverse, next.skip 1)
    | ',' :: _ => readItems fuel depth (item :: read) (next.skip 1).skipSpace
    | _ => .error ⟨.comma, next.position⟩

/-- Reads the entries of a mapping up to its end, after those in `entries`. -/
def readEntries (fuel depth : Nat) (entries : List (Value × Value)) (cursor : Cursor) :
    Except Stop (List (Value × Value) × Cursor) :=
  match fuel, cursor.rest with
  | 0, _ => .error ⟨.value, cursor.position⟩
  | fuel + 1, '"' :: rest => do
    let (key, afterKey) ← readText cursor.position [] (cursor.position + 1) rest
    let colon := afterKey.skipSpace
    match colon.rest with
    | ':' :: _ =>
      let (value, afterValue) ← readValue fuel depth (colon.skip 1).skipSpace
      let next := afterValue.skipSpace
      let entries := Value.insert (.text key) value entries
      match next.rest with
      | '\x7d' :: _ => return (entries, next.skip 1)
      | ',' :: _ => readEntries fuel depth entries (next.skip 1).skipSpace
      | _ => .error ⟨.comma, next.position⟩
    | _ => .error ⟨.colon, colon.position⟩
  | _ + 1, _ => .error ⟨.name, cursor.position⟩

end

/-- Reads a whole text, blanks around the value allowed. -/
def readDocument (limit : Nat) (chars : List Char) : Except Stop Value := do
  if chars.head? = some (Char.ofNat 0xfeff) then throw ⟨.byteOrderMark, 0⟩
  let (value, after) ← readValue (2 * chars.length + 2) limit (Cursor.skipSpace ⟨chars, 0⟩)
  let last := after.skipSpace
  if last.rest.isEmpty then return value else throw ⟨.extra, last.position⟩

def Stop.inText (stop : Stop) (chars : List Char) : Fault :=
  let before := chars.take stop.position
  { problem := stop.problem
    line := before.count '\n' + 1
    column := (before.reverse.takeWhile (· != '\n')).length + 1
    position := stop.position }

/-- Reads a JSON text in which so many values may stand inside each other. -/
def readWithin (limit : Nat) (text : String) : Except Fault Value :=
  (readDocument limit text.toList).mapError (·.inText text.toList)

def read (text : String) : Except Fault Value :=
  readWithin depthLimit text

end Whittle.Value.Json
