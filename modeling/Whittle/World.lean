import Whittle.Disk.Change
import Whittle.Grammar
import Whittle.Step

/-!
The world a run works in: the disk, the clock, the wish to stop, and what was
printed. What the world will do next, the driver's behaviour above all, is told by
a host.
-/

namespace Whittle

/-- A running driver, as it will turn out: it outlasts `polls` waits and then ends. What the clock shows
after such a wait is told by `reading`, given its number, the clock before it and how long it was to
take. -/
structure Process where
  output : Bytes := []
  polls : Nat := 0
  reading : Nat → Float → Float → Float := fun _ clock interval => clock + interval
  cancelAt : Option Nat := none
  duration : Float := 0.0
  exit : Int := 0
  known : Bool := true
  descendants : List (String × Bool) := []

/-- What comes of starting the driver. -/
inductive Start where
  | running (cancels : Bool) (process : Process)
  | refused (fault : Disk.Fault)
  | failed (failure : Failure)

/-- The start of the driver, and what it does to the disk at once. -/
structure Launch where
  disk : Disk
  start : Start

/-- What the world will do: how the parsers read, how each start of the driver of a name in a
directory turns out, after which write of a candidate the device is full, and for how many files of
a candidate there is room, given how many candidates were written before it. -/
structure Host where
  parsers : Parsers
  launch : Path → String → Nat → Disk → Launch
  fullAfter : Option Nat := none
  roomFor : Nat → Option Nat := fun _ => none
  streamWish : Option String := none

/-- The world. -/
structure World where
  disk : Disk
  clock : Float := 0.0
  cancelled : Bool := false
  launches : Nat := 0
  killed : List String := []
  printed : String := ""
  complained : String := ""
deriving Repr

namespace World

def onDisk {α : Type} (step : Step Disk α) : Step World α :=
  step.within (·.disk) fun disk world => { world with disk }

end World

namespace Disk

def change (operation : Disk → Except Fault Disk) : Step Disk Unit := fun disk =>
  match operation disk with
  | .ok changed => (.ok (), changed)
  | .error fault => (.error (.disk fault), disk)

def ensureDir (existing : Bool) (path : Path) : Step Disk Unit := fun disk =>
  let (result, after) := disk.makeDirs existing path
  (result.mapError .disk, after)

def ask {α : Type} (question : Disk → Except Fault α) : Step Disk α := fun disk =>
  ((question disk).mapError .disk, disk)

end Disk
end Whittle
