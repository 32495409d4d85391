import Whittle.World

/-!
Deeds: what is done to a disk from outside a run, by its driver or by whoever sets
its project up. What a deed did before it failed stays done.
-/

namespace Whittle

/-- Something done to a disk from outside. -/
inductive Deed where
  | write (path : Path) (data : Bytes)
  | makeDir (path : Path)
  | link (path : Path) (target : String)
  | setMode (path : Path) (mode : Nat)
  | rename (source target : Path)
  | remove (path : Path)
deriving DecidableEq, Repr

namespace Deed

/-- Does a deed; a file or a link gets the directories that it is to lie in. -/
def perform : Deed → Step Disk Unit
  | .write path data => do
    Disk.ensureDir true path.parent
    Disk.change (·.write path data)
  | .makeDir path => Disk.ensureDir true path
  | .link path target => do
    Disk.ensureDir true path.parent
    Disk.change (·.makeLink path target)
  | .setMode path mode => Disk.change (·.setMode path mode)
  | .rename source target => Disk.change (·.rename source target)
  | .remove path => Disk.change (·.removeAny path)

def performAll (deeds : List Deed) : Step Disk Unit :=
  deeds.forM perform

end Deed
end Whittle
