import Whittle.Engine
import Whittle.Pass.Proposals

/-!
The search of a run. Passes run in catalog order, each sweeping over every file
until one sweep accepts nothing. An accepted candidate of any pass but the first
sends the search back to the first pass; the fixpoint is reached once the whole
catalog runs through without that.

Each loop ends because an accepted candidate makes the project smaller.
-/

namespace Whittle

/-- A search under way: where it stands, and the engine that drives it. -/
structure Session extends Standing where
  engine : Engine

namespace Session

def size (session : Session) : Nat :=
  session.progress.project.size

def cancelled (session : Session) : Bool :=
  session.engine.world.cancelled

def onEngine {α : Type} (step : Step Engine α) : Step Session α :=
  step.within (·.engine) fun engine session => { session with engine }

def onBench {α : Type} (step : Step Bench α) : Step Session α :=
  step.within
    (fun session =>
      { project := session.progress.project
        worktree := session.worktree
        judge := session.engine.judge
        world := session.engine.world })
    fun bench session =>
      { session with
        engine := { session.engine with judge := bench.judge, world := bench.world }
        progress := { session.progress with project := bench.project }
        worktree := bench.worktree }

def scene (session : Session) (phase : Phase) : Scene where
  phase
  project := session.progress.project
  disk := session.engine.world.disk
  hearings := session.engine.judge.hearings
  bookmark := session.progress.bookmark
  counters := session.progress.counters
  written := session.engine.archive.written

/-- Takes down what is accepted and what is on disk as a phase begins. -/
def mark (phase : Phase) : Step Session Unit :=
  modify fun session => { session with scenes := session.scene phase :: session.scenes }

def enter (phase : Phase) (data : List (String × Value)) : Step Session Unit := do
  mark phase
  onEngine (Engine.enter phase data)

/-- Tries a candidate; nothing of it may stay on disk unsettled. -/
def trial (host : Host) (candidate : Candidate) : Step Session Trial := do
  let driver := (← get).engine.driver
  let trial ← onBench (Trial.run host driver {} candidate)
  if (← get).worktree.dirty then throw (.invariant .leftPending)
  return trial

def origin (candidate : Candidate) : List (String × Value) :=
  [("pass_name", .text candidate.passName), ("path", Value.ofText? candidate.path)]

def accept (trial : Trial) : Step Session Unit := do
  enter .accepting (origin trial.candidate)
  let size : Int := (← get).size
  if trial.sizeBefore < size ∨ size ≠ trial.sizeAfter then
    throw (.invariant (.grew trial.sizeBefore size))
  modify fun session =>
    { session with
      engine := { session.engine with unsaved := true }
      progress := { session.progress with
        bookmark := trial.candidate.bookmark
        counters := { session.progress.counters with
          accepted := session.progress.counters.accepted + 1 } } }
  onEngine <| Engine.log "trial.accepted" <| origin trial.candidate ++ [
    ("description", .text trial.candidate.description),
    ("committed", .bool true),
    ("size", .int size),
    ("removed", .int (trial.sizeBefore - size))]
  onEngine (Engine.keepSnapshot (← get).progress)

/-- The counters after a candidate that was rejected. -/
def countRejected (trial : Trial) (counters : Counters) : Counters :=
  let inconclusive := trial.verdict.any (·.isInconclusive)
  { counters with
    rejected := counters.rejected + 1
    parseFailures := counters.parseFailures + (if trial.parseFailed then 1 else 0)
    inconclusive := counters.inconclusive + (if inconclusive then 1 else 0) }

def lastReason : Option Verdict → String
  | some (.inconclusive reason _) => reason
  | some (.exited _ _ _) => "None"
  | none => "unknown"

/-- Takes note of a candidate that was rejected, and gives up after too many inconclusive verdicts
in a row. -/
def reject (trial : Trial) : Step Session Unit := do
  enter .rejecting (origin trial.candidate)
  modify fun session =>
    { session with
      progress := { session.progress with
        bookmark := trial.candidate.bookmark
        counters := countRejected trial session.progress.counters } }
  onEngine <| Engine.log "trial.rejected" <| origin trial.candidate ++ [
    ("description", .text trial.candidate.description),
    ("committed", .bool false),
    ("reason", .text ("; ".intercalate trial.notes))]
  let session ← get
  if session.cancelled then return
  if ← Step.lift (session.engine.judge.exceeded.mapError .value) then
    throw (.abort session.engine.judge.streak (lastReason trial.verdict))

/-- Goes into the phase in which a pass makes candidates. -/
def generate (pass : Pass) (path : Option String) : Step Session Unit :=
  enter .generatingCandidate [("pass_name", .text pass.name), ("path", Value.ofText? path)]

/-- Tries candidates in order, up to the first that is accepted. -/
def tryEach (host : Host) (pass : Pass) (path : Option String) :
    List Candidate → Step Session (Option Candidate)
  | [] => return none
  | candidate :: rest => do
    enter .testing (origin candidate)
    let trial ← trial host candidate
    if trial.committed then
      accept trial
      return some candidate
    reject trial
    if (← get).cancelled then return none
    generate pass path
    tryEach host pass path rest

/-- Makes the candidates of a pass for a target and tries them. -/
def tryProposals (host : Host) (index : Nat) (pass : Pass) (path : Option String)
    (position : Option (List Int)) : Step Session (Option Candidate) := do
  generate pass path
  let candidates ← Step.lift (pass.proposals (← get).progress.project path index position)
  tryEach host pass path candidates

/-- Whether there is still something to reduce at a target. -/
def hasTarget (session : Session) : Option String → Bool
  | none => true
  | some path => session.progress.project.tracks path

/-- Reduces one target, asking the pass again after each accepted candidate; answers how many were
accepted. -/
def exhaustTarget (host : Host) (index : Nat) (pass : Pass) (path : Option String)
    (position : Option (List Int)) (accepted : Nat) (session : Session) :
    Except Failure Nat × Session :=
  if !session.hasTarget path then (.ok accepted, session)
  else
    match (tryProposals host index pass path position).runOn session with
    | (.error failure, after) => (.error failure, after)
    | (.ok none, after) => (.ok accepted, after)
    | (.ok (some candidate), after) =>
      if after.cancelled then (.ok (accepted + 1), after)
      else if _ : after.size < session.size then
        exhaustTarget host index pass path candidate.bookmark.position (accepted + 1) after
      else (.ok (accepted + 1), after)
termination_by session.size

/-- Where to begin at a target when a sweep goes on from a bookmark; `none` if the target lies
before it. -/
def positionAt (resume : Option Bookmark) (path : Option String) :
    Except Failure (Option (Option (List Int))) :=
  match resume, path with
  | none, _ => .ok (some none)
  | some bookmark, none => .ok (some bookmark.position)
  | some bookmark, some path =>
    match bookmark.path with
    | .null => .ok (some none)
    | .text marked =>
      if path < marked then .ok none
      else if path = marked then .ok (some bookmark.position)
      else .ok (some none)
    | other => .error (.value (.unordered .below .text other.kind))

/-- Reduces targets in order; answers how many candidates were accepted. -/
def sweepTargets (host : Host) (index : Nat) (pass : Pass) (resume : Option Bookmark)
    (accepted : Nat) : List (Option String) → Step Session Nat
  | [] => return accepted
  | path :: rest => do
    match ← Step.lift (positionAt resume path) with
    | none => sweepTargets host index pass resume accepted rest
    | some position =>
      let more ← (exhaustTarget host index pass path position 0 : Step Session Nat)
      if (← get).cancelled then return accepted + more
      sweepTargets host index pass resume (accepted + more) rest

def targets (pass : Pass) (project : Project) : List (Option String) :=
  match pass.scope with
  | .project => [none]
  | .file => project.paths.map some

/-- Sweeps once over all targets of a pass and logs what was accepted. -/
def sweep (host : Host) (index : Nat) (pass : Pass) (resume : Option Bookmark) :
    Step Session Nat := do
  let project := (← get).progress.project
  let accepted ← sweepTargets host index pass resume 0 (targets pass project)
  onEngine (Engine.log "engine.sweep" [
    ("pass_name", .text pass.name), ("accepted", .int accepted), ("size", .int (← get).size)])
  return accepted

/-- Sweeps with one pass until a full sweep accepts nothing; a sweep that goes on from a bookmark is
not a full one. -/
def exhaustPass (host : Host) (index : Nat) (pass : Pass) (resume : Option Bookmark) (total : Nat)
    (session : Session) : Except Failure Nat × Session :=
  match (sweep host index pass resume).runOn session with
  | (.error failure, after) => (.error failure, after)
  | (.ok accepted, after) =>
    if after.cancelled || (accepted = 0 && resume.isNone) then (.ok (total + accepted), after)
    else if _ : after.size < session.size + resume.toList.length then
      exhaustPass host index pass none (total + accepted) after
    else (.ok (total + accepted), after)
termination_by session.size + resume.toList.length
decreasing_by simp; omega

/-- How a round through the catalog ends. -/
inductive RoundEnd where
  | interrupted
  | restart
  | through
deriving DecidableEq, Repr

def select (index : Nat) (pass : Pass) : Step Session Unit :=
  enter .selectingPass [("pass_name", .text pass.name), ("pass_index", .int index)]

/-- Runs passes in order, up to one that sends the search back; the first may go on from a
bookmark. -/
def round (host : Host) (resume : Option Bookmark) : List (Nat × Pass) → Step Session RoundEnd
  | [] => return .through
  | (index, pass) :: rest => do
    select index pass
    if (← get).cancelled then return .interrupted
    let accepted ← (exhaustPass host index pass resume 0 : Step Session Nat)
    if (← get).cancelled then
      select index pass
      return .interrupted
    if accepted ≠ 0 ∧ 0 < index then return .restart
    round host none rest

def numbered (passes : List Pass) (first : Nat) : List (Nat × Pass) :=
  (passes.zipIdx.map fun (pass, index) => (index, pass)).drop first

/-- Runs rounds until one goes through. A round that began after the first pass does not count. -/
def rounds (host : Host) (resume : Option Bookmark) (first : Nat) (session : Session) :
    Except Failure Phase × Session :=
  match (round host resume (numbered session.engine.passes first)).runOn session with
  | (.error failure, after) => (.error failure, after)
  | (.ok .interrupted, after) => (.ok .interrupted, after)
  | (.ok ending, after) =>
    if ending = .through ∧ first = 0 then (.ok .fixpoint, after)
    else if _ : after.size < session.size + (if first = 0 then 0 else 1) then
      rounds host none 0 after
    else (.ok .fixpoint, after)
termination_by session.size + (if first = 0 then 0 else 1)

end Session

namespace Engine

def firstPass (bookmark : Bookmark) (count : Nat) : Nat :=
  if bookmark.restored then (min (max bookmark.passIndex 0) (count - 1 : Nat)).toNat else 0

/-- The bookmark to go on from, if there is a place to go on from. -/
def resumeMark (bookmark : Bookmark) : Option Bookmark :=
  if bookmark.restored && bookmark.position.isSome then some bookmark else none

/-- Runs a step of a search that begins with some progress, and keeps where it stood at the end. -/
def inSession {α : Type} (progress : Progress) (step : Step Session α) : Step Engine α :=
  fun engine =>
    let session : Session := { engine, progress, worktree := { root := progress.project.root } }
    let (result, after) := step.runOn session
    (result, { after.engine with standing := some after.toStanding })

def search (host : Host) (progress : Progress) : Step Engine Result := do
  let count := (← get).passes.length
  let first := firstPass progress.bookmark count
  guarded <| inSession progress do
    let phase ← (Session.rounds host (resumeMark progress.bookmark) first : Step Session Phase)
    Session.mark phase
    let progress := (← get).progress
    Session.onEngine (finish progress phase progress.counters.initialSize)

/-- The files to reduce below a root: those given, or those found. -/
def chooseFiles (engine : Engine) (root : Path) (files : List Value) :
    Except Failure (List String) := do
  let disk := engine.world.disk
  if !(← (disk.isDir root).mapError .disk) then throw (.load (.rootNotDirectory root.text))
  let paths ←
    if files.isEmpty then
      Discovery.find disk engine.registry root {
        included := engine.included
        excluded := .list engine.excluded
        skipped := engine.archive.directory :: (engine.journal.map (·.base)).toList }
    else Discovery.normalize disk root files
  if paths.isEmpty then throw (.load (.nothingToReduce root.text))
  return paths

/-- Loads a project and checks that the bug reproduces on it; a wish to stop ends the run here. -/
def verifyBaseline (host : Host) (root : Path) (files : List Value) :
    Step Engine (Except Result Project) := do
  let engine ← get
  let paths ← Step.lift (engine.chooseFiles root files)
  let project ← Step.lift
    (Project.load host.parsers engine.registry engine.world.disk root paths)
  log "engine.loaded" [("files", .int paths.length), ("size", .int project.size)]
  enter .verifyingBaseline []
  let verdict ← judgeDisk host root
  let now := (← get).world.clock
  if (← get).world.cancelled then
    let progress : Progress := { project, counters := { startedAt := now } }
    return .error (← finish progress .interrupted project.size)
  if !verdict.reproduces then throw (.baseline verdict.describe)
  return .ok project

/-- Reduces the project below a root from the beginning. -/
def start (host : Host) (root : Path) (files : List Value) : Step Engine Result := do
  enter .initializing [("root", .text root.text)]
  match ← guarded (verifyBaseline host root files) with
  | .error result => return result
  | .ok project =>
    let now := (← get).world.clock
    let progress : Progress :=
      { project, counters := { initialSize := project.size, startedAt := now } }
    keepSnapshot progress
    search host progress

def loadSnapshot : Step Engine Checkpoint := do
  let engine ← get
  let (point, archive) ← Step.lift (engine.archive.resume engine.world.disk)
  set { engine with archive }
  return point

def installSnapshot (point : Checkpoint) (root : Path) : Step Engine Unit := do
  let install : Step World Unit :=
    (Worktree.install point.contents point.record.removed).within
      (fun world => (({ root } : Worktree), world.disk))
      fun site world => { world with disk := site.2 }
  match ← Step.attempt (onWorld install) with
  | .ok () => return
  | .error failure =>
    if let .write fault := failure then
      throw (.resume (.unrestorable point.record.id root.text fault.message))
    throw failure

def removedNames (removed : List Value) : List String :=
  removed.filterMap fun
    | .text name => some name
    | _ => none

def projectOf (host : Host) (registry : Grammar.Registry) (point : Checkpoint) (root : Path) :
    Except Failure Project :=
  match Project.ofContents host.parsers registry root point.contents
      (removedNames point.record.removed) with
  | .error (.load fault) => .error (.resume (.unparsed point.record.id fault.message))
  | result => result

/-- Goes back to a snapshot and checks that the bug still reproduces; a wish to stop ends the run
here. -/
def verifySnapshot (host : Host) : Step Engine (Except Result (Checkpoint × Project)) := do
  let point ← loadSnapshot
  let root := Path.ofText point.record.root
  installSnapshot point root
  let project ← Step.lift (projectOf host (← get).registry point root)
  let verdict ← judgeDisk host root
  let now := (← get).world.clock
  if (← get).world.cancelled then
    let progress : Progress := { project, counters := { startedAt := now } }
    return .error (← finish progress .interrupted project.size)
  if !verdict.reproduces then throw (.resume (.notReproducing point.record.id verdict.describe))
  return .ok (point, project)

def resume (host : Host) : Step Engine Result := do
  enter .resuming [("directory", .text (← get).archive.directory.text)]
  match ← guarded (verifySnapshot host) with
  | .error result => return result
  | .ok (point, project) =>
    let record := point.record
    let now := (← get).world.clock
    let counters ← Step.lift ((Counters.ofValue (.map record.counters) now).mapError .value)
    let counters :=
      if counters.initialSize = 0 then { counters with initialSize := project.size } else counters
    log "engine.resumed" [
      ("id", .int record.id), ("size", .int project.size), ("cursor", record.bookmark.toValue)]
    search host { project, bookmark := record.bookmark, counters }

end Engine
end Whittle
