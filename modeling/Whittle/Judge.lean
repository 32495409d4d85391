import Whittle.Verdict
import Whittle.World

/-!
The judge runs the driver and gives a verdict. It waits in short polls, kills a
driver that runs too long or is no longer wanted, and counts the inconclusive
verdicts in a row.
-/

namespace Whittle

/-- A run of the driver that led to a verdict: the disk that the driver found, the verdict, and
whether the run is to stop after it. -/
structure Hearing where
  disk : Disk
  verdict : Verdict
  cancelled : Bool
deriving Repr

/-- A judge: its limits as they were given, what it has counted, and its hearings so far, latest
first. -/
structure Judge where
  timeout : Value := .null
  threshold : Value := .null
  pollInterval : Float := 0.05
  outputLimit : Value := .int 4000
  streak : Nat := 0
  invocations : Nat := 0
  hearings : List Hearing := []
deriving Repr

namespace Judge

/-- Whether too many verdicts in a row were inconclusive; without a threshold they never are. -/
def exceeded (judge : Judge) : Except Value.Fault Bool :=
  if judge.threshold.isNull then .ok false
  else
    match judge.threshold.number? with
    | some threshold => .ok (threshold.lt (.int judge.streak))
    | none => .error (.unordered .above .int judge.threshold.kind)

/-- The end of the time limit for a driver that was started at a moment; nothing and zero set no
limit, and an integer must be in the range of clocks. -/
def deadline (judge : Judge) (started : Float) : Except Value.Fault (Option Float) :=
  if judge.timeout.isGiven then
    match judge.timeout.number? with
    | some (.int seconds) => do return some (started + (← Value.integerToDecimal seconds))
    | some (.float seconds) => .ok (some (started + seconds))
    | none => .error (.notAddable .float judge.timeout.kind)
  else .ok none

/-- How a wait ends. -/
inductive Ending where
  | exited
  | cancelled
  | timedOut
deriving DecidableEq, Repr

/-- Waits for a process that outlasts `left` more waits; `waited` of them are over. -/
def wait (judge : Judge) (watching : Bool) (process : Process) (deadline : Option Float) :
    (left waited : Nat) → (clock : Float) → (cancelled : Bool) → Ending × Float × Bool
  | 0, _, clock, cancelled => (.exited, clock + process.duration, cancelled)
  | left + 1, waited, clock, cancelled =>
    let clock := process.reading (waited + 1) clock judge.pollInterval
    let cancelled := cancelled || process.cancelAt = some (waited + 1)
    if watching && cancelled then (.cancelled, clock, cancelled)
    else if deadline.any (· ≤ clock) then (.timedOut, clock, cancelled)
    else judge.wait watching process deadline left (waited + 1) clock cancelled

/-- What is killed with a process: the descendants that are still there, then itself. -/
def victims (process : Process) : List String :=
  let alive := if process.known then process.descendants.filter (·.2) else []
  alive.map (fun child => "kill " ++ child.1) ++ ["kill driver"]

/-- How many bytes of an output are left out at its beginning; a limit that is no integer serves
only if nothing is left out. -/
def surplus (judge : Judge) (output : Bytes) : Except Value.Fault Nat :=
  match judge.outputLimit.number? with
  | some (.int limit) => .ok (output.length - limit).toNat
  | some (.float limit) =>
    if 0.0 < Decimal.ofInt output.length - limit then .error .decimalOffset else .ok 0
  | none => .error (.notSubtractable .int judge.outputLimit.kind)

def tail (judge : Judge) (output : Bytes) : Except Value.Fault String := do
  return Text.held (Text.Utf8.readLossy (output.drop (← judge.surplus output)))

/-- The verdict on a process that is to end by a deadline, and the world after it. -/
def observe (judge : Judge) (watching : Bool) (process : Process) (deadline : Option Float)
    (world : World) : Except Value.Fault Verdict × World :=
  let started := world.clock
  let (ending, clock, cancelled) :=
    judge.wait watching process deadline process.polls 0 world.clock world.cancelled
  let after := { world with clock, cancelled }
  match ending with
  | .exited => ((judge.tail process.output).map (.exited process.exit (clock - started)), after)
  | .cancelled =>
    (.ok (.inconclusive "cancelled" (clock - started)),
      { after with killed := after.killed ++ victims process })
  | .timedOut =>
    (.ok (.inconclusive s!"driver exceeded {judge.timeout.shown}s timeout" (clock - started)),
      { after with killed := after.killed ++ victims process })

def count (judge : Judge) (hearing : Hearing) : Judge :=
  { judge with
    streak := if hearing.verdict.isInconclusive then judge.streak + 1 else 0
    hearings := hearing :: judge.hearings }

/-- Runs the driver once in a directory. `watching` tells whether a wish to stop ends the wait. -/
def run (host : Host) (root : Path) (driver : String) (watching : Bool) (judge : Judge)
    (world : World) : Except Failure Verdict × Judge × World :=
  let begun := { judge with invocations := judge.invocations + 1 }
  let launches := world.launches + 1
  let found := world.disk
  let launch := host.launch root driver launches found
  let world := { world with launches, disk := launch.disk }
  match launch.start with
  | .failed failure => (.error failure, begun, world)
  | .refused fault =>
    let cause := fault.message
    let verdict := Verdict.inconclusive s!"cannot start driver {driver}: {cause}" 0.0
    (.ok verdict, begun.count { disk := found, verdict, cancelled := world.cancelled }, world)
  | .running cancels process =>
    let world := { world with cancelled := world.cancelled || cancels }
    match begun.deadline world.clock with
    | .error fault => (.error (.value fault), begun, world)
    | .ok deadline =>
      match begun.observe watching process deadline world with
      | (.error fault, after) => (.error (.value fault), begun, after)
      | (.ok verdict, after) =>
        (.ok verdict, begun.count { disk := found, verdict, cancelled := after.cancelled }, after)

end Judge

/-- The name of a driver for running it: its absolute path if it is a file here, else as given. -/
def locateDriver (disk : Disk) (driver : String) : Except Disk.Fault String := do
  let path := Path.ofText driver
  if ← disk.pathExists path then return (← disk.resolve path).text
  return driver

end Whittle
