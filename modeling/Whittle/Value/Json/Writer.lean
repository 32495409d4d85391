import Whittle.Value.Order

/-!
Writing values as JSON, in ASCII. The compact form has no blanks; the spread form
has a line for each item and two blanks of indentation for each level. NaN and the
infinities stand by name. A value is first arranged: its keys become texts and, for
the spread form, its fields are put in order of their keys. What JSON cannot hold
shows there, in the order in which it would be written.
-/

namespace Whittle.Value.Json

def unitChars (unit : Nat) : List Char :=
  '\\' :: 'u' :: Text.hexChars 4 unit

def codeChars (code : Nat) : List Char :=
  let char := Char.ofNat code
  if char = '"' then ['\\', '"']
  else if char = '\\' then ['\\', '\\']
  else if char = '\n' then ['\\', 'n']
  else if char = '\r' then ['\\', 'r']
  else if char = '\t' then ['\\', 't']
  else if code = 8 then ['\\', 'b']
  else if code = 12 then ['\\', 'f']
  else if 32 ≤ code && code < 127 then [char]
  else if code < 0x10000 then unitChars code
  else
    let rest := code - 0x10000
    unitChars (0xd800 + rest / 0x400) ++ unitChars (0xdc00 + rest % 0x400)

def quote (text : String) : String :=
  String.ofList ('"' :: (Text.codes text).flatMap codeChars ++ ['"'])

/-- A double; NaN and the infinities stand by name. -/
def double (value : Float) : String :=
  Decimal.writeWith ⟨"NaN", "Infinity"⟩ value

def atom : Value → String
  | .null => "null"
  | .bool value => if value then "true" else "false"
  | .int value => toString value
  | .float value => double value
  | .list _ => "[]"
  | .map _ => "\x7b\x7d"
  | value => quote value.shown

/-- The name of a field: a key that is no text is written as a text. -/
def keyText : Value → String
  | .text value => value
  | value => atom value

/-! ### Arranging -/

def isTooLong (value : Int) : Bool :=
  Decimal.digitLimit < (Nat.toDigits 10 value.natAbs).length

def fieldName (key : Value) : Except Value.Fault String :=
  match key with
  | .int value => if isTooLong value then .error .integerWriting else .ok (keyText key)
  | .null | .bool _ | .float _ | .text _ => .ok (keyText key)
  | key => .error (.notFieldName key.kind)

mutual

/-- The value with texts for keys and, if `ordered` asks for it, with its fields in order. -/
def arrange (ordered : Bool) : Value → Except Value.Fault Value
  | .int value => if isTooLong value then .error .integerWriting else .ok (.int value)
  | .list items => (arrangeItems ordered items).map .list
  | .map entries => do
    let arranged := arrangeEntries ordered entries
    let fields ← if ordered then sortEntries arranged else .ok arranged
    return .map (← fields.mapM Prod.snd)
  | .path _ => .error (.notWritable .path)
  | .day _ => .error (.notWritable .day)
  | .stamp _ => .error (.notWritable .stamp)
  | .bytes _ => .error (.notWritable .bytes)
  | .setOf _ => .error (.notWritable .set)
  | .again _ => .error .circular
  | .pair first second => do return .list [← arrange ordered first, ← arrange ordered second]
  | value => .ok value

def arrangeItems (ordered : Bool) : List Value → Except Value.Fault (List Value)
  | [] => .ok []
  | item :: rest => do return (← arrange ordered item) :: (← arrangeItems ordered rest)

def arrangeEntries (ordered : Bool) :
    List (Value × Value) → List (Value × Except Value.Fault (Value × Value))
  | [] => []
  | entry :: rest => arrangeEntry ordered entry :: arrangeEntries ordered rest

def arrangeEntry (ordered : Bool) : Value × Value → Value × Except Value.Fault (Value × Value)
  | (key, value) =>
    let arranged : Except Value.Fault (Value × Value) := do
      let name ← fieldName key
      return (.text name, ← arrange ordered value)
    (key, arranged)

end

/-! ### Writing -/

mutual

def compact : Value → String
  | .list items => "[" ++ ",".intercalate (compactItems items) ++ "]"
  | .map entries => "\x7b" ++ ",".intercalate (compactEntries entries) ++ "\x7d"
  | value => atom value

def compactItems : List Value → List String
  | [] => []
  | item :: rest => compact item :: compactItems rest

def compactEntries : List (Value × Value) → List String
  | [] => []
  | entry :: rest => compactEntry entry :: compactEntries rest

def compactEntry : Value × Value → String
  | (key, value) => quote (keyText key) ++ ":" ++ compact value

end

def newLine (level : Nat) : String :=
  String.ofList ('\n' :: List.replicate (2 * level) ' ')

mutual

def spread (level : Nat) : Value → String
  | .list [] => "[]"
  | .map [] => "\x7b\x7d"
  | .list items =>
    let separator := "," ++ newLine (level + 1)
    "[" ++ newLine (level + 1) ++ separator.intercalate (spreadItems (level + 1) items)
      ++ newLine level ++ "]"
  | .map entries =>
    let separator := "," ++ newLine (level + 1)
    "\x7b" ++ newLine (level + 1) ++ separator.intercalate (spreadEntries (level + 1) entries)
      ++ newLine level ++ "\x7d"
  | value => atom value

def spreadItems (level : Nat) : List Value → List String
  | [] => []
  | item :: rest => spread level item :: spreadItems level rest

def spreadEntries (level : Nat) : List (Value × Value) → List String
  | [] => []
  | entry :: rest => spreadEntry level entry :: spreadEntries level rest

def spreadEntry (level : Nat) : Value × Value → String
  | (key, value) => quote (keyText key) ++ ": " ++ spread level value

end

/-- The compact form of a value that JSON can hold, with its fields as they stand. -/
def writeCompact (value : Value) : Except Value.Fault String :=
  (arrange false value).map compact

/-- The spread form of a value that JSON can hold, with its fields in order. -/
def writeSpread (value : Value) : Except Value.Fault String :=
  (arrange true value).map (spread 0)

end Whittle.Value.Json
