import Whittle.Decimal.Numeral
import Whittle.Value

/-!
Taking values for what a reader needs: integers, decimals, items, fields and
entries. Every way in which a value does not serve is a `Fault`.
-/

namespace Whittle.Value

/-- A comparison that two values do not allow. -/
inductive Comparison where
  | below
  | atMost
  | above
deriving DecidableEq, Repr

def Comparison.sign : Comparison → String
  | .below => "<"
  | .atMost => "<="
  | .above => ">"

/-- Why a value does not serve. -/
inductive Fault where
  | notInteger (kind : Kind)
  | notDecimal (kind : Kind)
  | integerText (base : Nat) (written : String)
  | integerLength (digits : Nat)
  | integerWriting
  | decimalText (written : String)
  | nanToInteger
  | infinityToInteger
  | integerTooLarge
  | notIterable (kind : Kind)
  | noMember (kind : Kind) (member : String)
  | notIndexable (kind : Kind)
  | missingKey (key : String)
  | pairLength (index length : Nat)
  | pairNotSequence (index : Nat)
  | unhashable (kind : Kind)
  | unordered (comparison : Comparison) (left right : Kind)
  | dayWithMoment
  | offsetMissing
  | notPath (kind : Kind)
  | bytesAsPath
  | bytesAsPattern
  | notSearchable (kind : Kind)
  | notJoinable (kind : Kind)
  | notAddable (left right : Kind)
  | notSubtractable (left right : Kind)
  | notWritable (kind : Kind)
  | notFieldName (kind : Kind)
  | notText (index : Nat) (kind : Kind)
  | cutNotInteger
  | decimalOffset
  | notCountable (kind : Kind)
  | notFormattable (kind : Kind)
  | unexpectedField (owner field : String)
  | repeatedField (owner field : String)
  | emptyNumber
  | noDay (fault : Calendar.Fault)
  | noCharacter
  | codeTooLarge
  | tooDeep
  | circular
deriving DecidableEq, Repr

/-- How much of a text that is no integer is shown. -/
def Fault.quoteLimit : Nat := 200

def Fault.message : Fault → String
  | .notInteger kind =>
    "int() argument must be a string, a bytes-like object or a real number, not '"
      ++ kind.name ++ "'"
  | .notDecimal kind =>
    "float() argument must be a string or a real number, not '" ++ kind.name ++ "'"
  | .integerText base written =>
    s!"invalid literal for int() with base {base}: "
      ++ String.ofList ((Text.quoted written).toList.take Fault.quoteLimit)
  | .integerLength digits =>
    s!"Exceeds the limit ({Decimal.digitLimit} digits) for integer string conversion: "
      ++ s!"value has {digits} digits; use sys.set_int_max_str_digits() to increase the limit"
  | .integerWriting =>
    s!"Exceeds the limit ({Decimal.digitLimit} digits) for integer string conversion; "
      ++ "use sys.set_int_max_str_digits() to increase the limit"
  | .decimalText written => "could not convert string to float: " ++ Text.quoted written
  | .nanToInteger => "cannot convert float NaN to integer"
  | .infinityToInteger => "cannot convert float infinity to integer"
  | .integerTooLarge => "int too large to convert to float"
  | .notIterable kind => "'" ++ kind.name ++ "' object is not iterable"
  | .noMember kind member =>
    "'" ++ kind.name ++ "' object has no attribute '" ++ member ++ "'"
  | .notIndexable .list => "list indices must be integers or slices, not str"
  | .notIndexable .text => "string indices must be integers, not 'str'"
  | .notIndexable kind => "'" ++ kind.name ++ "' object is not subscriptable"
  | .missingKey key => Text.quoted key
  | .pairLength index length =>
    s!"dictionary update sequence element #{index} has length {length}; 2 is required"
  | .pairNotSequence index =>
    s!"cannot convert dictionary update sequence element #{index} to a sequence"
  | .unhashable kind => "unhashable type: '" ++ kind.name ++ "'"
  | .unordered comparison left right =>
    "'" ++ comparison.sign ++ "' not supported between instances of '" ++ left.name
      ++ "' and '" ++ right.name ++ "'"
  | .dayWithMoment => "can't compare datetime.datetime to datetime.date"
  | .offsetMissing => "can't compare offset-naive and offset-aware datetimes"
  | .notPath kind => "expected str, bytes or os.PathLike object, not " ++ kind.shortName
  | .bytesAsPath =>
    "argument should be a str object or an os.PathLike object returning str, not <class 'bytes'>"
  | .bytesAsPattern => "cannot use a bytes pattern on a string-like object"
  | .notSearchable kind => "expected string or bytes-like object, got '" ++ kind.name ++ "'"
  | .notJoinable kind =>
    "unsupported operand type(s) for /: 'PosixPath' and '" ++ kind.name ++ "'"
  | .notAddable left right =>
    "unsupported operand type(s) for +: '" ++ left.name ++ "' and '" ++ right.name ++ "'"
  | .notSubtractable left right =>
    "unsupported operand type(s) for -: '" ++ left.name ++ "' and '" ++ right.name ++ "'"
  | .notWritable kind => "Object of type " ++ kind.shortName ++ " is not JSON serializable"
  | .notFieldName kind => "keys must be str, int, float, bool or None, not " ++ kind.shortName
  | .notText index kind =>
    s!"sequence item {index}: expected str instance, " ++ kind.name ++ " found"
  | .cutNotInteger => "slice indices must be integers or None or have an __index__ method"
  | .decimalOffset => "'float' object cannot be interpreted as an integer"
  | .notCountable kind => "Unknown format code 'd' for object of type '" ++ kind.name ++ "'"
  | .notFormattable kind => "unsupported format string passed to " ++ kind.name ++ ".__format__"
  | .unexpectedField owner field =>
    owner ++ ".__init__() got an unexpected keyword argument '" ++ field ++ "'"
  | .repeatedField owner field =>
    owner ++ "() got multiple values for argument '" ++ field ++ "'"
  | .emptyNumber => "string index out of range"
  | .noDay fault => fault.message
  | .noCharacter => "chr() arg not in range(0x110000)"
  | .codeTooLarge => "Python int too large to convert to C int"
  | .tooDeep => "maximum recursion depth exceeded"
  | .circular => "Circular reference detected"

/-- The integer of a number or of a text that spells one. -/
def toInteger : Value → Except Fault Int
  | .bool value => .ok (if value then 1 else 0)
  | .int value => .ok value
  | .float value =>
    match Decimal.truncate? value with
    | some whole => .ok whole
    | none => .error (if value.isNaN then .nanToInteger else .infinityToInteger)
  | .text value =>
    match Decimal.readInteger value with
    | .integer whole => .ok whole
    | .tooLong digits => .error (.integerLength digits)
    | .malformed => .error (.integerText 10 value)
  | value => .error (.notInteger value.kind)

/-- The double nearest to an integer, which must be in range. -/
def integerToDecimal (value : Int) : Except Fault Float :=
  let double := Decimal.ofInt value
  if double.isInf then .error .integerTooLarge else .ok double

/-- The double of a number or of a text that spells one. -/
def toDecimal : Value → Except Fault Float
  | .bool value => .ok (if value then 1.0 else 0.0)
  | .int value => integerToDecimal value
  | .float value => .ok value
  | .text value =>
    match Decimal.readDecimal value with
    | some double => .ok double
    | none => .error (.decimalText value)
  | value => .error (.notDecimal value.kind)

/-- The items of a list, a set or a pair, the characters of a text, the keys of a mapping, or the
numbers of bytes. -/
def items? : Value → Option (List Value)
  | .list items => some items
  | .setOf members => some members
  | .pair first second => some [first, second]
  | .bytes value => some (value.map fun byte => .int byte.toNat)
  | .text value => some ((Text.letters value).map .text)
  | .map entries => some (entries.map Prod.fst)
  | _ => none

def items (value : Value) : Except Fault (List Value) :=
  match value.items? with
  | some items => .ok items
  | none => .error (.notIterable value.kind)

/-- The entries of a mapping, asked for in order to use `member` of it. -/
def entriesFor (member : String) : Value → Except Fault (List (Value × Value))
  | .map entries => .ok entries
  | value => .error (.noMember value.kind member)

def field? (value : Value) (key : String) : Except Fault (Option Value) :=
  (value.entriesFor "get").map (lookup? key)

def field (value : Value) (key : String) : Except Fault Value :=
  match value with
  | .map entries =>
    match lookup? key entries with
    | some found => .ok found
    | none => .error (.missingKey key)
  | value => .error (.notIndexable value.kind)

/-- The kind of the first part of a value because of which it cannot be a key: a list, a mapping or
a set. -/
def keyless? : Value → Option Kind
  | .list _ => some .list
  | .map _ => some .map
  | .setOf _ => some .set
  | .again kind => some kind
  | .pair first second => first.keyless? <|> second.keyless?
  | _ => none

def toKey (value : Value) : Except Fault Value :=
  match value.keyless? with
  | some kind => .error (.unhashable kind)
  | none => .ok value

/-- The key and value that an item of a list of pairs holds. -/
def toPair (index : Nat) (value : Value) : Except Fault (Value × Value) :=
  match value.items? with
  | some [key, content] => do return (← key.toKey, content)
  | some items => .error (.pairLength index items.length)
  | none => .error (.pairNotSequence index)

/-- Adds the pairs of a list to entries; a later pair replaces an earlier one of the same key. -/
def collectPairs (index : Nat) (entries : List (Value × Value)) :
    List Value → Except Fault (List (Value × Value))
  | [] => .ok entries
  | item :: rest => do
    let (key, content) ← item.toPair index
    collectPairs (index + 1) (insert key content entries) rest

def toEntries : Value → Except Fault (List (Value × Value))
  | .map entries => .ok entries
  | value => do collectPairs 0 [] (← value.items)

/-- The text of a text or a path, which names a place on disk. -/
def toPathText : Value → Except Fault String
  | .text value => .ok value
  | .path value => .ok value
  | .bytes _ => .error .bytesAsPath
  | value => .error (.notPath value.kind)

end Whittle.Value
