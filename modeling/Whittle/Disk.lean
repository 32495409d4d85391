import Whittle.Bytes
import Whittle.Path

/-!
A disk: what stands at each place, and the place that relative paths start from.
A place is a list of names from the top; what stands there is a file, a directory
or a symbolic link. Looking up a path follows the links on the way.
-/

namespace Whittle

/-- What a file holds, in the pieces in which it was written, the last one first. -/
structure Contents where
  pieces : List Bytes
deriving DecidableEq, Repr

namespace Contents

/-- What a file holds that was written at once. -/
def ofBytes (bytes : Bytes) : Contents :=
  ⟨[bytes]⟩

def add (contents : Contents) (bytes : Bytes) : Contents :=
  ⟨bytes :: contents.pieces⟩

/-- The bytes of some pieces, the last one first, and then `later`. -/
def joinBefore (later : Bytes) : List Bytes → Bytes
  | [] => later
  | piece :: earlier => joinBefore (piece ++ later) earlier

def bytes (contents : Contents) : Bytes :=
  match contents.pieces with
  | [piece] => piece
  | pieces => joinBefore [] pieces

theorem joinBefore_append (later more : Bytes) (pieces : List Bytes) :
    joinBefore (later ++ more) pieces = joinBefore later pieces ++ more := by
  induction pieces generalizing later with
  | nil => rfl
  | cons piece earlier ih => simp only [joinBefore, ← List.append_assoc, ih]

theorem bytes_eq_joinBefore (contents : Contents) :
    contents.bytes = joinBefore [] contents.pieces := by
  unfold bytes
  split <;> simp_all [joinBefore]

@[simp] theorem bytes_ofBytes (bytes : Bytes) : (ofBytes bytes).bytes = bytes := rfl

@[simp] theorem bytes_add (contents : Contents) (bytes : Bytes) :
    (contents.add bytes).bytes = contents.bytes ++ bytes := by
  simp only [bytes_eq_joinBefore, add, joinBefore, List.append_nil]
  exact joinBefore_append [] bytes contents.pieces

end Contents

/-- What stands at a place. -/
inductive Entry where
  | file (contents : Contents) (mode : Nat)
  | dir
  | link (target : String)
deriving DecidableEq, Repr

/-- A disk. The directories above `home` are always there. -/
structure Disk where
  home : List String
  entries : List (List String × Entry)
deriving DecidableEq, Repr

namespace Disk

/-- The names from the top down to something. -/
abbrev Place := List String

/-- The mode of a new file, readable by all and writable by its owner. -/
def newMode : Nat := 0o644

/-- Whether a place is the one given, which is `depth` names deep; places of other depths are told
apart by that alone. -/
def isPlace (place : Place) (depth : Nat) (other : Place) : Bool :=
  other.length == depth && other == place

/-- A place is the one given exactly if it is equal to it. -/
theorem isPlace_length_iff (place other : Place) :
    isPlace place place.length other = true ↔ other = place := by
  constructor
  · intro found
    simpa using (Bool.and_eq_true_iff.mp found).2
  · rintro rfl
    simp [isPlace]

def get? (disk : Disk) (place : Place) : Option Entry :=
  if place.isPrefixOf disk.home then some .dir
  else
    let depth := place.length
    (disk.entries.find? (isPlace place depth ·.1)).map Prod.snd

def others (disk : Disk) (place : Place) : List (Place × Entry) :=
  let depth := place.length
  disk.entries.filter (!isPlace place depth ·.1)

def put (disk : Disk) (place : Place) (entry : Entry) : Disk :=
  { disk with entries := (place, entry) :: disk.others place }

def erase (disk : Disk) (place : Place) : Disk :=
  { disk with entries := disk.others place }

def eraseTree (disk : Disk) (place : Place) : Disk :=
  { disk with entries := disk.entries.filter fun entry => !place.isPrefixOf entry.1 }

def moveTree (disk : Disk) (source target : Place) : Disk :=
  let moved := (disk.entries.filter fun entry => source.isPrefixOf entry.1).map fun entry =>
    (target ++ entry.1.drop source.length, entry.2)
  let others := disk.entries.filter fun entry =>
    !source.isPrefixOf entry.1 && !target.isPrefixOf entry.1
  { disk with entries := moved ++ others }

/-- What stands below a place, with the names that lead there from it. -/
def below (disk : Disk) (top : Place) : List (List String × Entry) :=
  disk.entries.filterMap fun (place, entry) =>
    if top.isPrefixOf place && top.length < place.length then some (place.drop top.length, entry)
    else none

def namesIn (disk : Disk) (place : Place) : List String :=
  disk.entries.filterMap fun entry =>
    if place.isPrefixOf entry.1 && entry.1.length == place.length + 1 then entry.1.getLast?
    else none

def startOf (disk : Disk) (path : Path) : Place :=
  if path.isAbsolute then [] else disk.home

end Disk
end Whittle
