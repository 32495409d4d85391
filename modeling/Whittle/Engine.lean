import Whittle.Archive
import Whittle.Discovery
import Whittle.Pass
import Whittle.Trial

/-!
The engine of a run: the judge, the archive, the passes and the journal, with the
phases that the run has gone through. Every change of phase is logged.
-/

namespace Whittle

/-- The phases of a run. -/
inductive Phase where
  | initializing
  | verifyingBaseline
  | resuming
  | selectingPass
  | generatingCandidate
  | testing
  | accepting
  | rejecting
  | fixpoint
  | interrupted
  | failed
deriving DecidableEq, Repr

def Phase.name : Phase → String
  | .initializing => "initializing"
  | .verifyingBaseline => "verifying_baseline"
  | .resuming => "resuming"
  | .selectingPass => "selecting_pass"
  | .generatingCandidate => "generating_candidate"
  | .testing => "testing"
  | .accepting => "accepting"
  | .rejecting => "rejecting"
  | .fixpoint => "fixpoint"
  | .interrupted => "interrupted"
  | .failed => "failed"

/-- What was accepted and what was on disk as a search went into a phase, the hearings up to then,
latest first, the bookmark and the counters, and the snapshots that had been written. -/
structure Scene where
  phase : Phase
  project : Project
  disk : Disk
  hearings : List Hearing
  bookmark : Bookmark := {}
  counters : Counters := {}
  written : List Int := []

def Scene.progress (scene : Scene) : Progress where
  project := scene.project
  bookmark := scene.bookmark
  counters := scene.counters

/-- Where a search stands: the accepted state, the working tree, and the scenes so far, latest
first. -/
structure Standing where
  progress : Progress
  worktree : Worktree
  scenes : List Scene := []

/-- An engine. `trail` holds the phases so far, latest first, and `standing` where the search stood
when it last ended. -/
structure Engine where
  driver : String
  judge : Judge
  archive : Archive
  passes : List Pass
  registry : Grammar.Registry
  journal : Option Journal := none
  included : Value := .null
  excluded : List Value := []
  trail : List Phase := []
  unsaved : Bool := false
  standing : Option Standing := none
  world : World

/-- What came of a run. -/
structure Result where
  status : Phase
  initialSize : Int
  project : Project
  counters : Counters
  snapshots : List Int

namespace Result

def finalSize (result : Result) : Nat :=
  result.project.size

end Result

namespace Engine

def phase (engine : Engine) : Phase :=
  engine.trail.headD .initializing

def onWorld {α : Type} (step : Step World α) : Step Engine α :=
  step.within (·.world) fun world engine => { engine with world }

def onArchive {α : Type} (step : Step (Archive × Disk) α) : Step Engine α :=
  step.within (fun engine => (engine.archive, engine.world.disk)) fun pair engine =>
    { engine with archive := pair.1, world := { engine.world with disk := pair.2 } }

/-- Runs the driver on what is on disk below a root. -/
def judgeDisk (host : Host) (root : Path) : Step Engine Verdict := fun engine =>
  let (result, judge, world) := engine.judge.run host root engine.driver true engine.world
  (result, { engine with judge, world })

def log (kind : String) (data : List (String × Value)) : Step Engine Unit := do
  match (← get).journal with
  | some journal => onWorld (journal.event kind data)
  | none => return

def enter (phase : Phase) (data : List (String × Value)) : Step Engine Unit := do
  modify fun engine => { engine with trail := phase :: engine.trail }
  log "engine.state" (("state", .text phase.name) :: data)

/-- Goes into the failed phase because of a failure of the reduction. -/
def fail (failure : Failure) (title : String) : Step Engine Unit := do
  if (← get).phase ≠ .failed then
    enter .failed [("reason", .text failure.message), ("error", .text title)]

/-- Runs a step; a failure of the reduction puts the engine into the failed phase. -/
def guarded {α : Type} (step : Step Engine α) : Step Engine α := do
  match ← Step.attempt step with
  | .ok value => return value
  | .error failure =>
    if let some title := failure.title? then fail failure title
    throw failure

/-- Offers a snapshot to the archive; a snapshot that cannot be written is only logged. -/
def keepSnapshot (progress : Progress) : Step Engine Unit := do
  let now := (← get).world.clock
  match ← Step.attempt (onArchive (Archive.offer (fun _ => pure ()) progress.capture now)) with
  | .ok none => return
  | .ok (some record) =>
    modify fun engine => { engine with unsaved := false }
    log "snapshot.written" [("id", .int record.id), ("size", .int record.size)]
  | .error failure =>
    if let .archive _ := failure then log "snapshot.failed" [("reason", .text failure.message)]
    else throw failure

def finish (progress : Progress) (status : Phase) (initialSize : Int) : Step Engine Result := do
  if (← get).unsaved then keepSnapshot progress
  let now := (← get).world.clock
  enter status [("size", .int progress.project.size), ("counters", progress.counters.toValue now)]
  return {
    status, initialSize, project := progress.project, counters := progress.counters
    snapshots := (← get).archive.written }

end Engine
end Whittle
