import Whittle.Candidate
import Whittle.Listing
import Whittle.Value.Order

/-!
Records of snapshots: what is written down about a snapshot beside the copies of
its files.
-/

namespace Whittle

/-- The record of a snapshot. -/
structure Record where
  id : Int
  timestamp : Float
  root : String
  bookmark : Bookmark
  size : Int
  files : Listing String
  removed : List Value := []
  counters : List (Value × Value) := []
deriving Repr, Inhabited

namespace Record

def sortFiles (files : Listing String) : Listing String :=
  sortBy (fun left right => left.1 < right.1) files

/-- The written form of a record; fails if the removed names cannot be put in order. -/
def toValue (record : Record) : Except Value.Fault Value := do
  let removed ← Value.sort record.removed
  return Value.record [
    ("id", .int record.id),
    ("timestamp", .float record.timestamp),
    ("root", .text record.root),
    ("cursor", record.bookmark.toValue),
    ("size", .int record.size),
    ("files", Value.record ((sortFiles record.files).map fun file => (file.1, .text file.2))),
    ("removed", .list removed),
    ("counters", .map record.counters)]

def ofValue (value : Value) : Except Value.Fault Record := do
  let id ← (← value.field "id").toInteger
  let timestamp ← (← value.field "timestamp").toDecimal
  let root := (← value.field "root").shown
  let cursor := (← value.field? "cursor").getD .null
  let bookmark ← Bookmark.ofValue (if cursor.isGiven then cursor else .map [])
  let size ← (← value.field "size").toInteger
  let entries ← (← value.field "files").entriesFor "items"
  let files := Listing.ofList (entries.map fun entry => (entry.1.shown, entry.2.shown))
  let removed ← ((← value.field? "removed").getD (.list [])).items
  let counters ← ((← value.field? "counters").getD (.map [])).toEntries
  return { id, timestamp, root, bookmark, size, files, removed, counters }

end Record
end Whittle
