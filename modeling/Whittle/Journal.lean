import Whittle.Moment
import Whittle.Text.Newline
import Whittle.Value.Json.Writer
import Whittle.World

/-!
Journals: each run has a directory in which it logs its events, one line of JSON
each, and leaves artefacts by name. With streaming on, each event is also printed
in short; problems go to the error output.
-/

namespace Whittle

/-- The journal of a run. -/
structure Journal where
  base : Path
  directory : Path
  streaming : Bool
deriving DecidableEq, Repr

namespace Journal

/-- The fields that a printed line shows, in order. -/
def shownFields : List String :=
  ["state", "pass_name", "path", "committed", "size", "id", "reason"]

def switchWords : List String :=
  ["1", "true", "yes", "on", "enable", "enabled"]

def switchesOn (text : Option String) : Bool :=
  switchWords.contains (Text.lower (Text.trim (text.getD "")))

/-- Begins a journal; without a wish for or against streaming the host decides. -/
def start (host : Host) (base : Path) (name : String) (stream : Option Bool) :
    Step World Journal := do
  let directory := base.child name
  World.onDisk (Disk.ensureDir true directory)
  return { base, directory, streaming := stream.getD (switchesOn host.streamWish) }

def eventFile (journal : Journal) : Path :=
  journal.directory.child "events.ndjson"

def isProblem (kind : String) (data : List (String × Value)) : Bool :=
  kind = "snapshot.failed" ||
    match data.lookup "state" with
    | some (.text state) => state = "failed"
    | _ => false

def echo (moment kind : String) (data : List (String × Value)) : String :=
  let fields := shownFields.filterMap fun key =>
    (data.lookup key).map fun value => key ++ "=" ++ value.shown
  Text.trim ("[" ++ moment ++ "] " ++ kind ++ " " ++ " ".intercalate fields)

/-- The logged line of an event; what JSON does not know is written as a text. -/
def line (clock : Float) (moment kind : String) (data : List (String × Value)) :
    Except Value.Fault String :=
  let record := Value.record [
    ("ts", .float clock),
    ("ts_iso", .text moment),
    ("kind", .text kind),
    ("data", Value.record data)]
  (Value.Json.writeCompact record.plain).map (· ++ "\n")

def print (problem : Bool) (text : String) : Step World Unit :=
  modify fun world =>
    if problem then { world with complained := world.complained ++ text ++ "\n" }
    else { world with printed := world.printed ++ text ++ "\n" }

/-- Logs an event. An event that cannot be written down leaves the log as it is, but makes sure that
there is one. -/
def event (journal : Journal) (kind : String) (data : List (String × Value)) : Step World Unit := do
  let clock := (← get).clock
  let moment ← Step.lift (Moment.write clock)
  let append (bytes : Bytes) : Step World Unit :=
    World.onDisk (Disk.change (·.append journal.eventFile bytes))
  match line clock moment kind data with
  | .ok text => append (Bytes.ofText text)
  | .error fault =>
    append []
    throw (.value fault)
  if journal.streaming then print (isProblem kind data) (echo moment kind data)

/-- Leaves a text under a file name and logs that. -/
def leave (journal : Journal) (name file text : String) : Step World Path := do
  let path := journal.directory.child file
  if let some fault := Text.unencodable? false text then
    World.onDisk (Disk.change (·.write path []))
    throw (.disk (.unencodable fault))
  World.onDisk (Disk.change (·.write path (Text.encode text)))
  journal.event "file.write" [("name", .text name), ("path", .text path.text)]
  return path

def leaveValue (journal : Journal) (name : String) (value : Value) : Step World Path := do
  let text ← Step.lift ((Value.Json.writeSpread value).mapError .value)
  journal.leave name (name ++ ".json") text

def leaveText (journal : Journal) (name text : String) : Step World Path :=
  journal.leave name (name ++ ".txt") text

/-- Whether a logged record is of a kind, or of any if none is asked for. -/
def isOfKind (kind : Option String) (record : Value) : Except Failure Bool :=
  match kind with
  | none => .ok true
  | some kind => ((record.field "kind").mapError .value).map (·.same (.text kind))

/-- What `use` takes from the records of some logged lines, of one kind or of all. Each line is read
only after `use` is done with those before it. -/
def recordsOf {α : Type} (kind : Option String) (use : Value → Except Failure α) :
    List (List Char) → Except Failure (List α)
  | [] => .ok []
  | line :: rest => do
    let record ← (Value.Json.read (String.ofList line)).mapError .json
    if ← isOfKind kind record then
      let used ← use record
      return used :: (← recordsOf kind use rest)
    else recordsOf kind use rest

/-- How many bytes of a log are read at a time. -/
def pieceSize : Nat := 8192

/-- Reads the logged events back, oldest first, and answers what `use` takes from each. Bytes that
are no text are met after the lines that were complete before them. -/
def events {α : Type} (journal : Journal) (kind : Option String) (use : Value → Except Failure α) :
    Step Disk (List α) := do
  if ← Disk.ask (·.pathExists journal.eventFile) then
    let bytes ← Disk.ask (·.read journal.eventFile)
    match Text.Utf8.readEach [] (bytes.cut pieceSize) with
    | (chars, none) => Step.lift (recordsOf kind use (Text.linesOf (Text.unifyChars chars)))
    | (chars, some fault) =>
      let _ ← Step.lift (recordsOf kind use (Text.completeLines chars))
      throw (.encoding fault)
  else return []

end Journal
end Whittle
