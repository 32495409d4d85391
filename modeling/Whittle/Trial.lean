import Whittle.Judge
import Whittle.Project
import Whittle.Worktree

/-!
Trials: a candidate is applied, written, judged, and then either committed or taken
back. The accepted project changes only if the bug still reproduces, and a candidate
that does not make the project smaller is not written at all.
-/

namespace Whittle

/-- What a trial works on. -/
structure Bench where
  project : Project
  worktree : Worktree
  judge : Judge
  world : World

/-- What is done to the disk before a candidate is written and after the driver has answered. -/
structure Hooks where
  prepare : Step Disk Unit := pure ()
  cleanup : Bool → Step Disk Unit := fun _ => pure ()

/-- What came of a trial. -/
structure Trial where
  committed : Bool
  candidate : Candidate
  verdict : Option Verdict := none
  sizeBefore : Int
  sizeAfter : Int
  parseFailed : Bool := false
  notes : List String := []

namespace Bench

def onDisk {α : Type} (step : Step Disk α) : Step Bench α :=
  step.within (·.world.disk) fun disk bench => { bench with world := { bench.world with disk } }

def onWorktree {α : Type} (step : Step (Worktree × Disk) α) : Step Bench α :=
  step.within (fun bench => (bench.worktree, bench.world.disk)) fun site bench =>
    { bench with worktree := site.1, world := { bench.world with disk := site.2 } }

def restore : Step Bench Unit := do
  onWorktree (Worktree.restore (← get).project.contents)

def judgeCandidate (host : Host) (driver : String) : Step Bench Verdict := fun bench =>
  let (result, judge, world) :=
    bench.judge.run host bench.worktree.root driver true bench.world
  (result, { bench with judge, world })

/-- Makes the candidate on disk the accepted state. -/
def accept (buffers : Project.Buffers) : Step Bench Unit := fun bench =>
  match bench.project.commit buffers with
  | (.ok (), project) => (.ok (), { bench with project, worktree := bench.worktree.settle })
  | (.error failure, project) => (.error failure, { bench with project })

end Bench

namespace Trial

/-- The note on a verdict that did not reproduce the bug. -/
def noteOn : Verdict → String
  | .inconclusive reason _ => s!"oracle inconclusive: {reason}"
  | .exited code _ _ => s!"oracle exit code {code}; rolling back."

/-- Writes a candidate; if that fails for lack of a proper disk, what was written is taken back. -/
def materialize (host : Host) (buffers : Project.Buffers) : Step Bench Unit := do
  let room := host.roomFor (← get).worktree.written
  match ← Step.attempt (Bench.onWorktree (Worktree.write host.fullAfter buffers.contents room)) with
  | .ok () => return
  | .error failure =>
    if let .write _ := failure then Bench.restore
    throw failure

/-- Judges the candidate on disk; if that fails in any way, the candidate is taken back. -/
def judge (host : Host) (driver : String) (hooks : Hooks) : Step Bench Verdict := do
  let judged : Step Bench Verdict := do
    let verdict ← Bench.judgeCandidate host driver
    Bench.onDisk (hooks.cleanup verdict.reproduces)
    return verdict
  match ← Step.attempt judged with
  | .ok verdict => return verdict
  | .error failure =>
    Bench.restore
    throw failure

def run (host : Host) (driver : String) (hooks : Hooks) (candidate : Candidate) :
    Step Bench Trial := do
  let project := (← get).project
  let size := project.size
  match project.apply host.parsers candidate with
  | .error failure =>
    if let .candidateUnparsed _ _ _ := failure then
      return {
        committed := false, candidate, sizeBefore := size, sizeAfter := size, parseFailed := true
        notes := ["candidate does not parse: " ++ failure.message] }
    throw failure
  | .ok buffers =>
    if size ≤ buffers.size then
      return {
        committed := false, candidate, sizeBefore := size, sizeAfter := size
        notes := [s!"size did not shrink ({size} -> {buffers.size}); skipped."] }
    Bench.onDisk hooks.prepare
    materialize host buffers
    let verdict ← judge host driver hooks
    if verdict.reproduces then
      Bench.accept buffers
      return {
        committed := true, candidate, verdict := some verdict
        sizeBefore := size, sizeAfter := buffers.size }
    Bench.restore
    return {
      committed := false, candidate, verdict := some verdict, sizeBefore := size
      sizeAfter := size, notes := [noteOn verdict] }

end Trial
end Whittle
