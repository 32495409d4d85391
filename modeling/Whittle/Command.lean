import Whittle.CommandLine
import Whittle.Grammar.Builtin
import Whittle.Reduction

/-!
The command: a run from its command line to its exit status. What the run was given
and what came of it is left in its journal; a failure of the reduction is reported
under its title.
-/

namespace Whittle

/-- How a run ends, as its exit status tells. -/
inductive Status where
  | done
  | failed
  | misconfigured
  | interrupted
deriving DecidableEq, Repr

def Status.code : Status → Nat
  | .done => 0
  | .failed => 1
  | .misconfigured => 2
  | .interrupted => 130

namespace Settings

def toPath (value : Value) : Except Failure Path :=
  (value.toPathText.mapError .value).map Path.ofText

def judge (settings : Settings) : Judge :=
  { timeout := settings.judging.timeout, threshold := settings.judging.threshold }

def archive (settings : Settings) : Except Failure Archive := do
  let archiving := settings.archiving
  Archive.create (← toPath archiving.directory) archiving.interval archiving.retention

def passes (settings : Settings) : Except Failure (List Pass) := do
  let searching ← settings.searching.get "passes"
  let names ← if searching.passes.isGiven then searching.passes.items.mapError .value else pure []
  let unknown ← unknownPasses names
  if !unknown.isEmpty then throw (.unknownPasses (← textsFrom 0 unknown))
  Pass.catalog (← textsFrom 0 names) searching.fileRemoval.isGiven

def engine (settings : Settings) (journal : Option Journal) (world : World) :
    Except Failure Engine := do
  let archive ← settings.archive
  let passes ← settings.passes
  let named ← settings.driver.toPathText.mapError .value
  let driver ← (locateDriver world.disk named).mapError .disk
  if passes.isEmpty then throw .noPasses
  let searching ← settings.searching.get "include"
  let excluded ← searching.excluded.items.mapError .value
  return {
    driver, archive, passes, journal, excluded, world
    included := searching.included
    judge := settings.judge
    registry := Grammar.Builtin.registry }

end Settings

namespace Command

def openJournal (host : Host) (name : String) (settings : Settings) : Step World Journal := do
  let logging ← Step.lift (settings.logging.get "dir")
  let base ← Step.lift (Settings.toPath logging.directory)
  let stream := logging.stream
  Journal.start host base name (if stream.isNull then none else some stream.isGiven)

def reduce (host : Host) (settings : Settings) (journal : Journal) : Step World Result :=
  fun world =>
    match settings.check *> settings.engine (some journal) world with
    | .error failure => (.error failure, world)
    | .ok engine =>
      let search : Step Engine Result :=
        if settings.resume.isGiven then Engine.resume host
        else do
          let root ← Step.lift (Settings.toPath settings.root)
          let files ← Step.lift (settings.files.items.mapError .value)
          Engine.start host root files
      let (result, after) := search.runOn engine
      (result, after.world)

def resultRecord (result : Result) (now : Float) : Value :=
  Value.record [
    ("status", .text result.status.name),
    ("initial_size", .int result.initialSize),
    ("final_size", .int result.finalSize),
    ("counters", result.counters.toValue now),
    ("snapshots", .list (result.snapshots.map .int))]

/-- The line that sums a run up. -/
def summaryLine (result : Result) (lostSnapshots : Nat) : String :=
  s!"grammar-reduce: {result.status.name}: {result.initialSize} -> {result.finalSize} bytes "
    ++ s!"({result.counters.accepted} accepted, {result.counters.rejected} rejected)"
    ++ (if lostSnapshots = 0 then "" else s!"; {lostSnapshots} snapshot write(s) failed")

def report (journal : Journal) (result : Result) : Step World Status := do
  let _ ← journal.leaveValue "result" (resultRecord result (← get).clock)
  let lost ← World.onDisk (journal.events (some "snapshot.failed") .ok)
  let line := summaryLine result lost.length
  let _ ← journal.leaveText "summary" (line ++ "\n")
  Journal.print false line
  return if result.status = .interrupted then .interrupted else .done

def complain (title message : String) : Step World Unit :=
  Journal.print true ("grammar-reduce: " ++ title ++ ": " ++ message)

def runWith (host : Host) (name : String) (settings : Settings) : Step World Status := do
  let journal ← openJournal host name settings
  let files ← Step.lift (settings.files.items.mapError .value)
  let _ ← journal.leaveValue "config" (Value.record { settings with files := .list files }.summary)
  match ← Step.attempt (reduce host settings journal) with
  | .ok result => report journal result
  | .error failure =>
    match failure.title? with
    | some title =>
      complain title failure.message
      return .failed
    | none => throw failure

/-- Runs with arguments; `name` is the name of the run, under which its journal is kept. -/
def run (host : Host) (name : String) (arguments : Arguments) : Step World Status := do
  match arguments.settings (← get).disk with
  | .ok settings => runWith host name settings
  | .error (.settings fault) =>
    complain "configuration error" fault.message
    return .misconfigured
  | .error failure => throw failure

end Command
end Whittle
