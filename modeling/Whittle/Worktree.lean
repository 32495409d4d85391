import Whittle.World

/-!
Working trees: the directory that the driver looks at. At most one candidate is on
disk at a time; its paths are pending until it is taken back or settled. A file is
written beside its place and then moved there.
-/

namespace Whittle

/-- A working tree: its root, the paths of the candidate on disk, and the number of candidates that
were written in full. -/
structure Worktree where
  root : Path
  pending : List String := []
  written : Nat := 0
deriving DecidableEq, Repr

namespace Worktree

def dirty (worktree : Worktree) : Bool :=
  !worktree.pending.isEmpty

/-- The name under which a file is written before it is moved to its place. -/
def temporaryName (name : String) : String :=
  "." ++ name ++ ".grammar-reduce.tmp"

/-- Writes a file in its temporary place and moves it, keeping the mode of the old one. -/
def replaceFile (target temporary : Path) (data : Bytes) : Step Disk Unit := do
  Disk.ensureDir true target.parent
  Disk.change (·.write temporary data)
  if ← Disk.ask (·.pathExists target) then
    let mode ← Disk.ask (·.mode? target)
    Disk.change (·.setMode temporary mode)
  Disk.change (·.rename temporary target)

def storeFile (root : Path) (path : String) (data : Bytes) : Step Disk Unit := do
  let target := root.child path
  if target.name = "" then throw (.namelessPath target.text)
  let temporary := target.withName (temporaryName target.name)
  match ← Step.attempt (replaceFile target temporary data) with
  | .ok () => return
  | .error failure =>
    if let some fault := failure.system? then
      let _ ← Step.attempt (Disk.change (·.removeIfPresent temporary))
      throw (.write (.unwritable target.text fault.message))
    throw failure

def removeFile (root : Path) (path : String) : Step Disk Unit := do
  let target := root.child path
  match ← Step.attempt (Disk.change (·.removeIfPresent target)) with
  | .ok () => return
  | .error failure =>
    if let some fault := failure.system? then
      throw (.write (.unremovable target.text fault.message))
    throw failure

def putFile (root : Path) (path : String) : Option Bytes → Step Disk Unit
  | some data => storeFile root path data
  | none => removeFile root path

def putFiles (root : Path) (files : List (String × Option Bytes)) : Step Disk Unit :=
  files.forM fun file => putFile root file.1 file.2

def onDisk {α : Type} (step : Step Disk α) : Step (Worktree × Disk) α :=
  step.within Prod.snd fun disk site => (site.1, disk)

def note (change : Worktree → Worktree) : Step (Worktree × Disk) Unit :=
  modify fun site => (change site.1, site.2)

/-- The files of a candidate in order of their names. -/
def ordered (contents : Listing (Option Bytes)) : List (String × Option Bytes) :=
  (sortNames (Listing.names contents)).map fun path =>
    (path, (Listing.get? contents path).getD none)

/-- Puts a candidate on disk, as far as there is `room` for its files. -/
def write (fullAfter : Option Nat) (contents : Listing (Option Bytes)) (room : Option Nat := none) :
    Step (Worktree × Disk) Unit := do
  let worktree := (← get).1
  if worktree.dirty then throw (.invariant .alreadyPending)
  let files := ordered contents
  note fun worktree => { worktree with pending := files.map Prod.fst }
  let count := room.getD files.length
  onDisk (putFiles worktree.root (files.take count))
  if count < files.length then throw (.write .deviceFull)
  note fun worktree => { worktree with written := worktree.written + 1 }
  if fullAfter = some (worktree.written + 1) then throw (.write .deviceFull)

/-- Puts the accepted bytes of the pending paths back. -/
def restore (accepted : Listing Bytes) : Step (Worktree × Disk) Unit := do
  let worktree := (← get).1
  onDisk (putFiles worktree.root
    (worktree.pending.map fun path => (path, Listing.get? accepted path)))
  note fun worktree => { worktree with pending := [] }

def settle (worktree : Worktree) : Worktree :=
  { worktree with pending := [] }

def removedPath : Value → Except Failure String
  | .text path => .ok path
  | .path path => .ok path
  | value => .error (.value (.notJoinable value.kind))

def removeAll (root : Path) : List Value → Step Disk Unit
  | [] => pure ()
  | value :: rest => do
    let path ← Step.lift (removedPath value)
    removeFile root path
    removeAll root rest

/-- Makes the directory hold some contents and none of the removed files. -/
def install (contents : Listing Bytes) (removed : List Value) : Step (Worktree × Disk) Unit := do
  let root := (← get).1.root
  onDisk (putFiles root (ordered (contents.map fun entry => (entry.1, some entry.2))))
  onDisk (removeAll root removed)
  note settle

def read (worktree : Worktree) (disk : Disk) (path : String) : Except Failure Bytes :=
  (disk.read (worktree.root.child path)).mapError .disk

end Worktree
end Whittle
