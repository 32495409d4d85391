import Whittle.Disk.Change
import Whittle.Pass
import Whittle.Text.Newline
import Whittle.Value.Yaml

/-!
Settings of a run. They come from a file, section by section, and single ones are
overridden from outside. A setting keeps whatever value it was given until the
whole is checked; what is wrong first is reported.
-/

namespace Whittle

namespace Settings

/-- How the driver is run: its time limit, and after how many inconclusive verdicts in a row the
run gives up. -/
structure Judging where
  timeout : Value := .null
  threshold : Value := .null
deriving Repr

/-- Where snapshots go, how often they are taken, and how many are kept. -/
structure Archiving where
  directory : Value := .null
  interval : Value := .float 10.0
  retention : Value := .int 10
deriving Repr

/-- What is searched: the passes, and the files by pattern. -/
structure Searching where
  passes : Value := .null
  fileRemoval : Value := .bool true
  included : Value := .null
  excluded : Value := .list []
deriving Repr

/-- Where runs leave their journals, and whether they print their events. -/
structure Logging where
  directory : Value := .text ".reduce_runs"
  stream : Value := .bool false
deriving Repr

/-- A section of settings: its fields, or a value that was put in their place as a whole. -/
inductive Part (α : Type) where
  | fields (record : α)
  | replaced (value : Value)
deriving Repr

/-- The fields of a section; a value in their place is missing the one that is `wanted`. -/
def Part.get {α : Type} (part : Part α) (wanted : String) : Except Failure α :=
  match part with
  | .fields record => .ok record
  | .replaced value => .error (.value (.noMember value.kind wanted))

/-- A section as a record, or the value in its place. -/
def Part.toValue {α : Type} (part : Part α) (entries : α → List (String × Value)) : Value :=
  match part with
  | .fields record => Value.record (entries record)
  | .replaced value => value

end Settings

/-- The settings of a run. -/
structure Settings where
  driver : Value := .null
  root : Value := .null
  resume : Value := .bool false
  files : Value := .list []
  judging : Settings.Judging := {}
  archiving : Settings.Archiving := {}
  searching : Settings.Part Settings.Searching := .fields {}
  logging : Settings.Part Settings.Logging := .fields {}
deriving Repr

namespace Settings

abbrev Entries := List (Value × Value)

/-- The file that settings are read from when no other is named. -/
def defaultFile : String := "grammar-reduce.yaml"

/-- What is said of a file that cannot be read. -/
def malformed : String := "malformed document"

/-! ### Reading -/

/-- The entries of a section; one that is missing or empty has none. -/
def readSection (data : Entries) (name : String) : Except Failure Entries :=
  match Value.lookup? name data with
  | none => .ok []
  | some value =>
    if value.isGiven then
      match value with
      | .map entries => .ok entries
      | _ => .error (.settings (.sectionNotMapping name))
    else .ok []

def settingOr (entries : Entries) (name : String) (default : Value) : Value :=
  (Value.lookup? name entries).getD default

/-- The items of a value as a list; nothing stays nothing. -/
def toList (value : Value) : Except Failure Value :=
  if value.isNull then .ok value
  else (value.items.mapError .value).map .list

def readJudging (data : Entries) : Except Failure Judging := do
  let entries ← readSection data "oracle"
  return {
    timeout := settingOr entries "timeout" .null
    threshold := settingOr entries "inconclusive_abort_threshold" .null }

def readArchiving (data : Entries) : Except Failure Archiving := do
  let entries ← readSection data "snapshot"
  return {
    directory := settingOr entries "directory" .null
    interval := settingOr entries "interval" (.float 10.0)
    retention := settingOr entries "retention" (.int 10) }

def readSearching (data : Entries) : Except Failure Searching := do
  let entries ← readSection data "search"
  let passes ← toList (settingOr entries "passes" .null)
  let included ← toList (settingOr entries "include" .null)
  let excluded ← toList (settingOr entries "exclude" (.list []))
  return {
    passes, included, excluded
    fileRemoval := settingOr entries "file_removal" (.bool true) }

def readLogging (data : Entries) : Except Failure Logging := do
  let entries ← readSection data "logging"
  return {
    directory := settingOr entries "dir" (.text ".reduce_runs")
    stream := settingOr entries "stream" (.bool false) }

/-- The settings in a mapping; names that are not known are passed over. -/
def ofEntries (data : Entries) : Except Failure Settings := do
  let judging ← readJudging data
  let archiving ← readArchiving data
  let searching ← readSearching data
  let logging ← readLogging data
  let given := settingOr data "files" .null
  let files ← if given.isGiven then toList given else pure (.list [])
  return {
    driver := settingOr data "driver" .null
    root := settingOr data "root_path" .null
    resume := .bool (settingOr data "resume" (.bool false)).isGiven
    files, judging, archiving
    searching := .fields searching
    logging := .fields logging }

/-- The settings in a value, which must be a mapping. -/
def ofValue (value : Value) : Except Failure Settings := do
  ofEntries (← (value.entriesFor "get").mapError .value)

/-- Reads the settings in a text; an empty one has none. -/
def ofText (path text : String) : Except Failure Settings :=
  match Value.Yaml.read text with
  | .error .malformed => .error (.settings (.unparsed path malformed))
  | .error (.value fault) => .error (.value fault)
  | .ok value =>
    if value.isGiven then
      match value with
      | .map entries => ofEntries entries
      | _ => .error (.settings .notMapping)
    else ofEntries []

/-- Reads the settings file that a value names; without the file all settings are the usual ones. -/
def load (disk : Disk) (file : Value) : Except Failure Settings := do
  let name ← if file.isNull then pure defaultFile else file.toPathText.mapError .value
  let path := Path.ofText name
  if !(← (disk.pathExists path).mapError .disk) then return {}
  let bytes ← (disk.read path).mapError .disk
  let text ← (Text.Utf8.read bytes).mapError .encoding
  ofText path.text (Text.unifyLines text)

/-! ### Overriding -/

/-- The name that stands for a record itself, so that none of its settings can have it. -/
def ownName : String := "self"

/-- Changes a record setting by setting; what is nothing changes nothing. -/
def overrideEach {α : Type} (owner : String) (set : α → String → Value → Option α) (record : α) :
    Entries → Except Failure α
  | [] => .ok record
  | (key, value) :: rest =>
    if value.isNull then overrideEach owner set record rest
    else if key.shown = ownName then .error (.value (.repeatedField (owner ++ ".__init__") ownName))
    else match set record key.shown value with
      | some changed => overrideEach owner set changed rest
      | none => .error (.value (.unexpectedField owner key.shown))

def Judging.set (judging : Judging) (name : String) (value : Value) : Option Judging :=
  match name with
  | "timeout" => some { judging with timeout := value }
  | "inconclusive_abort_threshold" => some { judging with threshold := value }
  | _ => none

def Archiving.set (archiving : Archiving) (name : String) (value : Value) : Option Archiving :=
  match name with
  | "directory" => some { archiving with directory := value }
  | "interval" => some { archiving with interval := value }
  | "retention" => some { archiving with retention := value }
  | _ => none

/-- Sets a setting outside the sections, or a whole section of those that are not overridden setting
by setting. -/
def set (settings : Settings) (name : String) (value : Value) : Option Settings :=
  match name with
  | "driver" => some { settings with driver := value }
  | "root_path" => some { settings with root := value }
  | "resume" => some { settings with resume := value }
  | "files" => some { settings with files := value }
  | "search" => some { settings with searching := .replaced value }
  | "logging" => some { settings with logging := .replaced value }
  | _ => none

def overridesOf (value : Value) : Except Failure Entries :=
  if value.isGiven then (value.entriesFor "items").mapError .value else .ok []

/-- The sections that are overridden setting by setting. -/
def overridable : List String := ["oracle", "snapshot"]

def override (settings : Settings) (changes : Entries) : Except Failure Settings := do
  if (Value.lookup? ownName changes).isSome then
    throw (.value (.repeatedField "Config.with_overrides" ownName))
  let top := changes.filter fun change => !overridable.contains change.1.shown
  let changed ← overrideEach "Config" set settings top
  let judging ← overrideEach "OracleConfig" Judging.set changed.judging
    (← overridesOf (settingOr changes "oracle" .null))
  let archiving ← overrideEach "SnapshotConfig" Archiving.set changed.archiving
    (← overridesOf (settingOr changes "snapshot" .null))
  return { changed with judging, archiving }

/-! ### Checking -/

def isBelow (value : Value) (limit : Int) : Except Failure Bool :=
  match value.number? with
  | some number => .ok (number.lt (.int limit))
  | none => .error (.value (.unordered .below value.kind .int))

def isAtMost (value : Value) (limit : Int) : Except Failure Bool :=
  match value.number? with
  | some number => .ok (number.le (.int limit))
  | none => .error (.value (.unordered .atMost value.kind .int))

def unknownPasses : List Value → Except Failure (List Value)
  | [] => .ok []
  | name :: rest => do
    let name ← name.toKey.mapError .value
    let others ← unknownPasses rest
    match name with
    | .text written => return if (Pass.ofName? written).isSome then others else name :: others
    | _ => return name :: others

def textsFrom (index : Nat) : List Value → Except Failure (List String)
  | [] => .ok []
  | .text written :: rest => do return written :: (← textsFrom (index + 1) rest)
  | value :: _ => .error (.value (.notText index value.kind))

def checkPasses (passes : Value) : Except Failure Unit := do
  if passes.isGiven then
    let unknown ← unknownPasses (← passes.items.mapError .value)
    if !unknown.isEmpty then throw (.settings (.unknownPasses (← textsFrom 0 unknown)))

/-- Checks settings: a run needs a driver, one origin, a place for snapshots, and numbers in
range. -/
def check (settings : Settings) : Except Failure Unit := do
  if !settings.driver.isGiven then throw (.settings .noDriver)
  if settings.root.isGiven == settings.resume.isGiven then throw (.settings .originNotUnique)
  let archiving := settings.archiving
  if !archiving.directory.isGiven then throw (.settings .noDirectory)
  if ← isBelow archiving.interval 0 then throw (.settings .negativeInterval)
  if ← isBelow archiving.retention 1 then throw (.settings .retentionBelowOne)
  let judging := settings.judging
  if !judging.timeout.isNull then
    if ← isAtMost judging.timeout 0 then throw (.settings .timeoutNotPositive)
  if !judging.threshold.isNull then
    if ← isBelow judging.threshold 0 then throw (.settings .negativeThreshold)
  checkPasses (← settings.searching.get "passes").passes

/-! ### Records -/

def Judging.toValue (judging : Judging) : Value :=
  Value.record [
    ("timeout", judging.timeout),
    ("inconclusive_abort_threshold", judging.threshold)]

def Archiving.toValue (archiving : Archiving) : Value :=
  Value.record [
    ("directory", archiving.directory),
    ("interval", archiving.interval),
    ("retention", archiving.retention)]

def summary (settings : Settings) : List (String × Value) := [
  ("driver", settings.driver),
  ("root_path", settings.root),
  ("resume", settings.resume),
  ("files", settings.files),
  ("snapshot", settings.archiving.toValue),
  ("oracle", settings.judging.toValue)]

def toValue (settings : Settings) : Value :=
  Value.record (settings.summary ++ [
    ("search", settings.searching.toValue fun searching => [
      ("passes", searching.passes),
      ("file_removal", searching.fileRemoval),
      ("include", searching.included),
      ("exclude", searching.excluded)]),
    ("logging", settings.logging.toValue fun logging => [
      ("dir", logging.directory),
      ("stream", logging.stream)])])

end Settings
end Whittle
