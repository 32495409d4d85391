import Whittle.World

/-!
Symptoms: properties of the files of a project by which a bug can be told without
running a driver. A host that looks for a symptom gives the same verdict on the same
files every time.
-/

namespace Whittle

namespace Bytes

def isWithin (needle : Bytes) : Bytes → Bool
  | [] => needle.isEmpty
  | byte :: rest => needle.isPrefixOf (byte :: rest) || isWithin needle rest

/-- How often a byte string stands in another, without overlaps; `skipped` bytes belong to the last
one found. -/
def countFrom (needle : Bytes) (skipped : Nat) : Bytes → Nat
  | [] => 0
  | byte :: rest =>
    if 0 < skipped then countFrom needle (skipped - 1) rest
    else if needle.isPrefixOf (byte :: rest) then countFrom needle (needle.length - 1) rest + 1
    else countFrom needle 0 rest

/-- How often a byte string stands in another, without overlaps. -/
def occurrences (needle bytes : Bytes) : Nat :=
  if needle.isEmpty then bytes.length + 1 else countFrom needle 0 bytes

def isWordByte (byte : UInt8) : Bool :=
  (48 ≤ byte && byte ≤ 57) || (65 ≤ byte && byte ≤ 90) || (97 ≤ byte && byte ≤ 122) || byte == 95

/-- Whether a byte string stands in another with a change between word and other bytes at both its
ends; `previous` says whether a word byte stands before. -/
def hasWord (word : Bytes) (previous : Bool) (bytes : Bytes) : Bool :=
  let begins (part : Bytes) : Bool := part.head?.any isWordByte
  let last := (word.getLast?.map isWordByte).getD previous
  (word.isPrefixOf bytes && previous != begins bytes && last != begins (bytes.drop word.length)) ||
    match bytes with
    | [] => false
    | byte :: rest => hasWord word (isWordByte byte) rest

end Bytes

/-- A property of the files of a project. -/
inductive Symptom where
  | always
  /-- A file is there. -/
  | file (path : String)
  /-- A file holds some bytes. -/
  | inFile (path : String) (bytes : Bytes)
  /-- Some file holds some bytes. -/
  | anywhere (bytes : Bytes)
  /-- Some file holds a word. -/
  | word (bytes : Bytes)
  /-- All files together hold some bytes so often. -/
  | count (bytes : Bytes) (least : Nat)
  /-- All files together are so large. -/
  | size (least : Nat)
  /-- The size of all files together leaves a remainder. -/
  | remainder (divisor rest : Nat)
  /-- There are so many files. -/
  | files (least : Nat)
  | not (symptom : Symptom)
  | all (symptoms : List Symptom)
  | any (symptoms : List Symptom)
deriving Inhabited

namespace Symptom

abbrev Files := List (String × Bytes)

mutual

def shows (files : Files) : Symptom → Bool
  | .always => true
  | .file path => files.any (·.1 == path)
  | .inFile path bytes => bytes.isWithin ((files.lookup path).getD [])
  | .anywhere bytes => files.any fun file => bytes.isWithin file.2
  | .word bytes => files.any fun file => bytes.hasWord false file.2
  | .count bytes least => least ≤ Bytes.total (files.map fun file => bytes.occurrences file.2)
  | .size least => least ≤ Bytes.total (files.map (·.2.length))
  | .remainder divisor rest => Bytes.total (files.map (·.2.length)) % divisor == rest
  | .files least => least ≤ files.length
  | .not symptom => !symptom.shows files
  | .all symptoms => allShow files symptoms
  | .any symptoms => anyShows files symptoms

def allShow (files : Files) : List Symptom → Bool
  | [] => true
  | symptom :: rest => symptom.shows files && allShow files rest

def anyShows (files : Files) : List Symptom → Bool
  | [] => false
  | symptom :: rest => symptom.shows files || anyShows files rest

end

/-- The bytes of the file that stands at a place, or that a link there leads to. -/
def bytesAt (disk : Disk) (place : Disk.Place) : Option Bytes :=
  match disk.lookUp .target { root := "/", names := place } with
  | .error _ => none
  | .ok found =>
    match disk.get? found with
    | some (.file contents _) => some contents.bytes
    | _ => none

/-- The files below a root that no hidden name leads to. -/
def filesBelow (disk : Disk) (root : Path) : Files :=
  match disk.locate root with
  | .error _ => []
  | .ok top => (disk.below top).filterMap fun (names, entry) =>
    if names.any (·.startsWith ".") then none
    else
      let found := match entry with
        | .file contents _ => some contents.bytes
        | .link _ => bytesAt disk (top ++ names)
        | .dir => none
      found.map fun data => ("/".intercalate names, data)

def showsBelow (symptom : Symptom) (disk : Disk) (root : Path) : Bool :=
  symptom.shows (filesBelow disk root)

/-- The symptom that a file of texts describes: each of its lines stands somewhere. -/
def ofLines (data : Bytes) : Symptom :=
  .all ((data.lines.filter fun line => !line.isEmpty).map .anywhere)

/-- The host on which the driver succeeds exactly if the project that it is run in shows a
symptom. -/
def host (parsers : Parsers) (symptom : Symptom) : Host :=
  { parsers
    launch := fun root _ _ disk =>
      { disk, start := .running false { exit := if symptom.showsBelow disk root then 0 else 1 } } }

end Symptom
end Whittle
