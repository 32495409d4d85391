import Whittle.Counters
import Whittle.Digest
import Whittle.Journal
import Whittle.Project
import Whittle.Record

/-!
Archives of snapshots. A snapshot is a numbered directory with a record and a copy
of every tracked file; it is staged in a hidden directory and renamed into place.
Snapshots are taken no more often than the interval allows, and the oldest go when
there are more than are to be kept.
-/

namespace Whittle

open Decimal (Number)

/-- Where a run stands. -/
structure Progress where
  project : Project
  bookmark : Bookmark := {}
  counters : Counters := {}

/-- What a snapshot captures; `tally` is the written form of the counters at a moment. -/
structure Capture where
  project : Project
  bookmark : Bookmark
  tally : Float → Except Value.Fault Value

def Progress.capture (progress : Progress) : Capture where
  project := progress.project
  bookmark := progress.bookmark
  tally now := .ok (progress.counters.toValue now)

/-- An archive: its directory and settings, and what it has written. -/
structure Archive where
  directory : Path
  interval : Value := .float 10.0
  retention : Number := .int 10
  lastWritten : Option Float := none
  lastId : Int := 0
  written : List Int := []
deriving Repr

/-- A snapshot read back. -/
structure Checkpoint where
  record : Record
  contents : Listing Bytes
  path : Path
deriving Repr

namespace Archive

/-- What is done to a staged snapshot before it is published. -/
abbrev Finish := Path → Step Disk Unit

/-- Opens an archive, which must keep at least one snapshot. -/
def create (directory : Path) (interval retention : Value) : Except Failure Archive :=
  match retention.number? with
  | none => .error (.value (.unordered .below retention.kind .int))
  | some retention =>
    if retention.lt (.int 1) then .error .retention else .ok { directory, interval, retention }

/-- The directory name of a snapshot: at least six characters, filled with zeros after the sign. -/
def nameOf (id : Int) : String :=
  if id < 0 then "-" ++ Text.padded 5 id.natAbs else Text.padded 6 id.natAbs

def numbersIn (disk : Disk) (directory : Path) (names : List String) :
    Except Failure (List Int) := do
  let numbered ← names.filterM fun name => do
    return (← (disk.isDir (directory.child name)).mapError .disk) && !name.isEmpty &&
      name.toList.all Text.isDigit
  let ids ← numbered.mapM fun name => ((Value.text name).toInteger).mapError .value
  return sortBy (fun left right => left < right) ids

/-- The numbers of the snapshots that are there, in order. -/
def ids (archive : Archive) (disk : Disk) : Except Failure (List Int) := do
  if ← (disk.pathExists archive.directory).mapError .disk then
    numbersIn disk archive.directory (← (disk.list archive.directory).mapError .disk)
  else return []

def onDisk {α : Type} (step : Step Disk α) : Step (Archive × Disk) α :=
  step.within Prod.snd fun disk pair => (pair.1, disk)

def note (change : Archive → Archive) : Step (Archive × Disk) Unit :=
  modify fun pair => (change pair.1, pair.2)

def allocate : Step (Archive × Disk) Int := do
  let (archive, disk) ← get
  let id := (← Step.lift (archive.ids disk)).foldl max archive.lastId + 1
  note fun archive => { archive with lastId := id }
  return id

/-- Copies files below a directory, making directories as needed. -/
def copyFiles (directory : Path) : List (String × Bytes) → Step Disk Unit
  | [] => pure ()
  | (name, data) :: rest => do
    let target := directory.child name
    Disk.ensureDir true target.parent
    Disk.change (·.write target data)
    copyFiles directory rest

def orderedFiles (project : Project) : List (String × Bytes) :=
  project.paths.filterMap fun path =>
    (Listing.get? project.files path).map fun file => (path, file.data)

def recordOf (capture : Capture) (id : Int) (now : Float) : Except Value.Fault Record := do
  return {
    id
    timestamp := now
    root := capture.project.root.text
    bookmark := capture.bookmark
    size := capture.project.size
    files := (orderedFiles capture.project).map fun file => (file.1, Digest.ofBytes file.2)
    removed := capture.project.removed.map .text
    counters := ← (← capture.tally now).toEntries }

def stagingPath (directory : Path) (id : Int) : Path :=
  directory.child ("." ++ nameOf id ++ ".partial")

/-- Stages a snapshot and renames it into place. -/
def publish (finish : Finish) (directory : Path) (capture : Capture) (id : Int) (now : Float) :
    Step Disk Record := do
  let staging := stagingPath directory id
  if ← Disk.ask (·.pathExists staging) then Disk.change (·.removeTree staging)
  let files := staging.child "files"
  Disk.ensureDir false files
  copyFiles files (orderedFiles capture.project)
  let record ← Step.lift ((recordOf capture id now).mapError .value)
  let text ← Step.lift ((record.toValue >>= Value.Json.writeSpread).mapError .value)
  Disk.change (·.write (staging.child "meta.json") (Bytes.ofText text))
  finish staging
  Disk.change (·.rename staging (directory.child (nameOf id)))
  return record

/-- The failure to write a snapshot, if the operating system was its cause. -/
def unwritable (directory : Path) (failure : Failure) : Failure :=
  match failure.system? with
  | some fault => .archive (.unwritable directory.text fault.message)
  | none => failure

/-- Writes a snapshot. What was staged goes away if that fails. -/
def write (finish : Finish) (capture : Capture) (now : Float) :
    Step (Archive × Disk) Record := do
  let directory := (← get).1.directory
  let begun : Step (Archive × Disk) Int := do
    onDisk (Disk.ensureDir true directory)
    allocate
  match ← Step.attempt begun with
  | .error failure => throw (unwritable directory failure)
  | .ok id =>
    match ← Step.attempt (onDisk (publish finish directory capture id now)) with
    | .ok record => return record
    | .error failure =>
      if failure.system?.isSome then
        let _ ← Step.attempt (onDisk (Disk.change (·.removeTree (stagingPath directory id))))
      throw (unwritable directory failure)

/-- The number of snapshots that are too many. -/
def surplus (retention : Number) (count : Nat) : Except Failure Nat :=
  match retention with
  | .int kept => .ok (count - kept).toNat
  | .float kept =>
    if 0.0 < Decimal.ofInt count - kept then .error (.value .cutNotInteger) else .ok 0

def removeSnapshots (directory : Path) : List Int → Step Disk Unit
  | [] => pure ()
  | id :: rest => do
    match ← Step.attempt (Disk.change (·.removeTree (directory.child (nameOf id)))) with
    | .ok () => removeSnapshots directory rest
    | .error failure =>
      if let some fault := failure.system? then
        throw (.archive (.unevictable id fault.message))
      throw failure

def evict : Step (Archive × Disk) Unit := do
  let (archive, disk) ← get
  let ids ← Step.lift (archive.ids disk)
  let count ← Step.lift (surplus archive.retention ids.length)
  onDisk (removeSnapshots archive.directory (ids.take count))

/-- Whether the last snapshot is younger than the interval, which must be a number by then. -/
def tooSoon (archive : Archive) (now : Float) : Except Value.Fault Bool :=
  match archive.lastWritten, archive.interval.number? with
  | none, _ => .ok false
  | some last, some interval => .ok ((Number.float (now - last)).lt interval)
  | some _, none => .error (.unordered .below .float archive.interval.kind)

/-- Takes a snapshot unless it is too soon for one. -/
def offer (finish : Finish) (capture : Capture) (now : Float) :
    Step (Archive × Disk) (Option Record) := do
  if ← Step.lift (((← get).1.tooSoon now).mapError .value) then return none
  let record ← write finish capture now
  note fun archive =>
    { archive with lastWritten := some now, written := archive.written ++ [record.id] }
  evict
  return some record

def readRecord (disk : Disk) (path : Path) : Except Failure Record := do
  let bytes ← (disk.read (path.child "meta.json")).mapError .disk
  let text ← (Text.Utf8.read bytes).mapError .encoding
  let value ← (Value.Json.read (Text.unifyLines text)).mapError .json
  (Record.ofValue value).mapError .value

/-- The copy of a file, checked against its digest. -/
def readCopy (disk : Disk) (path : Path) (file : String × String) :
    Except Failure (String × Bytes) :=
  match disk.read ((path.child "files").child file.1) with
  | .error fault =>
    if fault.isSystem then .error (.resume (.missingCopy path.text file.1 fault.message))
    else .error (.disk fault)
  | .ok data =>
    if Digest.ofBytes data = file.2 then .ok (file.1, data)
    else .error (.resume (.corruptedCopy path.text file.1))

/-- The number that a value gives in a directory name. -/
def idOf (value : Value) : Except Value.Fault Int :=
  match value with
  | .text _ | .float _ => .error (.notCountable value.kind)
  | .int id => .ok id
  | .bool id => .ok id.toInt
  | _ => .error (.notFormattable value.kind)

def load (archive : Archive) (disk : Disk) (id : Int) : Except Failure Checkpoint := do
  let path := archive.directory.child (nameOf id)
  match readRecord disk path with
  | .error failure =>
    if failure.spoilsRecord then throw (.resume (.unreadableRecord path.text failure.message))
    throw failure
  | .ok record =>
    let contents ← record.files.mapM (readCopy disk path)
    return { record, contents, path }

/-- Reads the first of some snapshots that is intact; `problems` tells of those before. -/
def loadFirst (archive : Archive) (disk : Disk) (problems : List String) :
    List Int → Except Failure Checkpoint
  | [] => .error (.resume (.noneValid archive.directory.text problems))
  | id :: rest =>
    match archive.load disk id with
    | .ok point => .ok point
    | .error (.resume fault) => loadFirst archive disk (problems ++ [fault.message]) rest
    | .error failure => .error failure

def resume (archive : Archive) (disk : Disk) : Except Failure (Checkpoint × Archive) := do
  match archive.ids disk with
  | .error failure =>
    if let some fault := failure.system? then
      throw (.resume (.unreadableDirectory archive.directory.text fault.message))
    throw failure
  | .ok ids =>
    let point ← archive.loadFirst disk [] ids.reverse
    return (point, { archive with lastId := ids.foldl max archive.lastId })

end Archive
end Whittle
