import Whittle.Calendar
import Whittle.Decimal.Number
import Whittle.Text.Quoted

/-!
Values of settings files, snapshot records and log events: what a document in a
data format can hold, and paths, which only events hold. Days, moments, byte strings,
sets and pairs only settings files hold.
-/

namespace Whittle

open Decimal (Number)

/-- The kinds of values. -/
inductive Value.Kind where
  | null | bool | int | float | text | list | map | path | day | stamp | bytes | set | pair
deriving DecidableEq, Repr

/-- A value of a data document; `again` stands where a list or a mapping would hold itself. -/
inductive Value where
  | null
  | bool (value : Bool)
  | int (value : Int)
  | float (value : Float)
  | text (value : String)
  | list (items : List Value)
  | map (entries : List (Value × Value))
  | path (value : String)
  | day (value : Day)
  | stamp (value : Stamp)
  | bytes (value : Bytes)
  | setOf (members : List Value)
  | pair (first second : Value)
  | again (kind : Value.Kind)
deriving Repr, Inhabited

namespace Value

def Kind.name : Kind → String
  | .null => "NoneType"
  | .bool => "bool"
  | .int => "int"
  | .float => "float"
  | .text => "str"
  | .list => "list"
  | .map => "dict"
  | .path => "PosixPath"
  | .day => "datetime.date"
  | .stamp => "datetime.datetime"
  | .bytes => "bytes"
  | .set => "set"
  | .pair => "tuple"

/-- The name of a kind without the name of its family. -/
def Kind.shortName : Kind → String
  | .day => "date"
  | .stamp => "datetime"
  | kind => kind.name

def kind : Value → Kind
  | .null => .null
  | .bool _ => .bool
  | .int _ => .int
  | .float _ => .float
  | .text _ => .text
  | .list _ => .list
  | .map _ => .map
  | .path _ => .path
  | .day _ => .day
  | .stamp _ => .stamp
  | .bytes _ => .bytes
  | .setOf _ => .set
  | .pair _ _ => .pair
  | .again kind => kind

def record (fields : List (String × Value)) : Value :=
  .map (fields.map fun field => (.text field.1, field.2))

def ofText? : Option String → Value
  | none => .null
  | some value => .text value

/-- Whether a value counts as given: not nothing, false, zero or empty. -/
def isGiven : Value → Bool
  | .null => false
  | .bool value => value
  | .int value => value ≠ 0
  | .float value => value != 0.0
  | .text value => value ≠ ""
  | .list items => !items.isEmpty
  | .map entries => !entries.isEmpty
  | .bytes value => !value.isEmpty
  | .setOf members => !members.isEmpty
  | .path _ | .day _ | .stamp _ | .pair _ _ | .again _ => true

def isNaN : Value → Bool
  | .float value => value.isNaN
  | _ => false

def isNull : Value → Bool
  | .null => true
  | _ => false

/-- The number that a value is; a truth value counts as 0 or 1. -/
def number? : Value → Option Number
  | .bool value => some (.int (if value then 1 else 0))
  | .int value => some (.int value)
  | .float value => some (.float value)
  | _ => none

mutual

/-- Whether two values are equal; numbers are compared by value, mappings and sets without order. -/
def same : Value → Value → Bool
  | .null, .null => true
  | .text left, .text right => left == right
  | .path left, .path right => left == right
  | .day left, .day right => left == right
  | .stamp left, .stamp right => left.same right
  | .list left, .list right => sameItems left right
  | .map left, .map right => left.length == right.length && sameEntries left right
  | .bytes left, .bytes right => left == right
  | .setOf left, .setOf right => left.length == right.length && allAmong left right
  | .pair left first, .pair right second => left.same right && first.same second
  | left, right =>
    match left.number?, right.number? with
    | some left, some right => left.same right
    | _, _ => false

def sameItems : List Value → List Value → Bool
  | [], [] => true
  | left :: lefts, right :: rights => left.same right && sameItems lefts rights
  | _, _ => false

def allAmong : List Value → List Value → Bool
  | [], _ => true
  | value :: rest, others => others.any (value.same ·) && allAmong rest others

/-- Whether every entry of the first mapping stands in the second. -/
def sameEntries : List (Value × Value) → List (Value × Value) → Bool
  | [], _ => true
  | entry :: rest, others => sameEntry entry others && sameEntries rest others

def sameEntry : Value × Value → List (Value × Value) → Bool
  | (key, value), others => others.any fun other => key.same other.1 && value.same other.2

end

def lookup? (key : String) : List (Value × Value) → Option Value
  | [] => none
  | (.text other, value) :: rest => if other = key then some value else lookup? key rest
  | _ :: rest => lookup? key rest

/-- Sets the value of a key: in its place if it is there, else at the end. -/
def insert (key value : Value) : List (Value × Value) → List (Value × Value)
  | [] => [(key, value)]
  | (other, old) :: rest =>
    if other.same key then (other, value) :: rest else (other, old) :: insert key value rest

mutual

def quoted : Value → String
  | .null => "None"
  | .bool value => if value then "True" else "False"
  | .int value => toString value
  | .float value => Decimal.write value
  | .text value => Text.quoted value
  | .list items => "[" ++ ", ".intercalate (quotedItems items) ++ "]"
  | .map entries => "\x7b" ++ ", ".intercalate (quotedEntries entries) ++ "\x7d"
  | .path value => "PosixPath(" ++ Text.quoted value ++ ")"
  | .day value => value.quoted
  | .stamp value => value.quoted
  | .bytes value => Text.quotedBytes value
  | .setOf [] => "set()"
  | .setOf members => "\x7b" ++ ", ".intercalate (quotedItems members) ++ "\x7d"
  | .pair first second => "(" ++ first.quoted ++ ", " ++ second.quoted ++ ")"
  | .again .map => "\x7b...\x7d"
  | .again _ => "[...]"

def quotedItems : List Value → List String
  | [] => []
  | item :: rest => item.quoted :: quotedItems rest

def quotedEntries : List (Value × Value) → List String
  | [] => []
  | entry :: rest => quotedEntry entry :: quotedEntries rest

def quotedEntry : Value × Value → String
  | (key, value) => key.quoted ++ ": " ++ value.quoted

end

/-- The written form of a value on its own: a text and a path stand without quotes, a day and a
moment as they are commonly written. -/
def shown : Value → String
  | .text value => value
  | .path value => value
  | .day value => value.text
  | .stamp value => value.text
  | value => value.quoted

mutual

/-- The value with every part that JSON cannot hold replaced by its text. -/
def plain : Value → Value
  | .path value => .text value
  | .day value => .text value.text
  | .stamp value => .text value.text
  | .bytes value => .text (Text.quotedBytes value)
  | .setOf members => .text (quoted (.setOf members))
  | .pair first second => .pair first.plain second.plain
  | .list items => .list (plainItems items)
  | .map entries => .map (plainEntries entries)
  | value => value

def plainItems : List Value → List Value
  | [] => []
  | item :: rest => item.plain :: plainItems rest

def plainEntries : List (Value × Value) → List (Value × Value)
  | [] => []
  | entry :: rest => plainEntry entry :: plainEntries rest

/-- The entry with every part of its value that JSON cannot hold replaced by its text. -/
def plainEntry : Value × Value → Value × Value
  | (key, value) => (key, value.plain)

end

end Value
end Whittle
