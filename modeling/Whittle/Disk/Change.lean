import Whittle.Disk.Lookup

/-!
Reading and changing a disk. An operation answers the new disk or the fault it met;
writing goes through a link, renaming and removing act on the link itself.
-/

namespace Whittle.Disk

/-- The bytes of a file, which must be readable for its owner. -/
def read (disk : Disk) (path : Path) : Except Fault Bytes := do
  match disk.get? (← disk.locate path) with
  | some (.file contents mode) =>
    if mode &&& 0o400 = 0 then throw (Fault.at .permission path.text)
    return contents.bytes
  | some .dir => throw (Fault.at .isDirectory path.text)
  | _ => throw (Fault.at .notFound path.text)

/-- Gives a file new contents, computed from the old ones; a missing file is made, another must be
writable for its owner. -/
def alter (disk : Disk) (path : Path) (change : Contents → Contents) : Except Fault Disk := do
  let place ← disk.locateFile path
  match disk.get? place with
  | some (.file contents mode) =>
    if mode &&& 0o200 = 0 then throw (Fault.at .permission path.text)
    return disk.put place (.file (change contents) mode)
  | some .dir => throw (Fault.at .isDirectory path.text)
  | _ => return disk.put place (.file (change (.ofBytes [])) newMode)

def write (disk : Disk) (path : Path) (data : Bytes) : Except Fault Disk :=
  disk.alter path fun _ => .ofBytes data

def append (disk : Disk) (path : Path) (data : Bytes) : Except Fault Disk :=
  disk.alter path (·.add data)

/-- The mode of what a path leads to; directories can be entered by all. -/
def mode? (disk : Disk) (path : Path) : Except Fault Nat := do
  match disk.get? (← disk.locate path) with
  | some (.file _ mode) => return mode
  | some .dir => return 0o755
  | _ => throw (Fault.at .notFound path.text)

def setMode (disk : Disk) (path : Path) (mode : Nat) : Except Fault Disk := do
  let place ← disk.locate path
  match disk.get? place with
  | some (.file contents _) => return disk.put place (.file contents mode)
  | some .dir => return disk
  | _ => throw (Fault.at .notFound path.text)

def makeDir (disk : Disk) (path : Path) : Except Fault Disk := do
  let place ← disk.locateEntry path
  match disk.get? place with
  | none => return disk.put place .dir
  | some _ => throw (Fault.at .alreadyExists path.text)

def makeLink (disk : Disk) (path : Path) (target : String) : Except Fault Disk := do
  if let some fault := unusable? target <|> unusable? path.text then throw fault
  let fault := fun code => Fault.between code target path.text
  if target = "" then throw (fault .notFound)
  if Text.exceeds pathLimit target then throw (fault .nameTooLong)
  let place ← (disk.lookUp .entry path).mapError fault
  match disk.get? place with
  | none => return disk.put place (.link target)
  | some _ => throw (fault .alreadyExists)

/-- Passes over a fault in making a directory if one stands there. -/
def forgive (disk : Disk) (path : Path) (fault : Fault) : Except Fault Unit := do
  if !(← disk.isDir path) then throw fault

/-- Makes a directory and those above it; whether it may be there already is up to `existing`. Those
that were made stay if a later one cannot be made. -/
def makeDirs (disk : Disk) (existing : Bool) (path : Path) : Except Fault Unit × Disk :=
  match disk.makeDir path with
  | .ok made => (.ok (), made)
  | .error .nullByte => (.error .nullByte, disk)
  | .error (.unencodable fault) => (.error (.unencodable fault), disk)
  | .error (.met .notFound operands) =>
    if _h : path.names = [] then (.error (.met .notFound operands), disk)
    else
      match makeDirs disk true path.parent with
      | (.error fault, above) => (.error fault, above)
      | (.ok (), above) =>
        match above.makeDir path with
        | .ok made => (.ok (), made)
        | .error fault => (if existing then above.forgive path fault else .error fault, above)
  | .error fault => (if existing then disk.forgive path fault else .error fault, disk)
termination_by path.names.length
decreasing_by
  simp only [Path.parent, List.length_dropLast]
  have := List.length_pos_iff.mpr _h
  omega

def remove (disk : Disk) (path : Path) : Except Fault Disk := do
  let place ← disk.locateEntry path
  match disk.get? place with
  | none => throw (Fault.at .notFound path.text)
  | some .dir => throw (Fault.at .isDirectory path.text)
  | some _ => return disk.erase place

def removeIfPresent (disk : Disk) (path : Path) : Except Fault Disk :=
  match disk.remove path with
  | .error (.met .notFound _) => .ok disk
  | result => result

/-- Whether a path names no entry of a directory: it has no name or ends above its last directory.
-/
def isUnnamed (path : Path) : Bool :=
  path.name = "" || path.name = ".."

/-- Moves what stands at a place; a file may be replaced, and so may an empty directory. -/
def move (disk : Disk) (old new : Place) : Except Code Disk :=
  match disk.get? old, disk.get? new with
  | none, _ => .error .notFound
  | some entry, found =>
    if old = new then .ok disk
    else if old.isPrefixOf new then .error .invalid
    else if new.isPrefixOf old then .error .notEmpty
    else match entry, found with
      | .dir, some (.file _ _) | .dir, some (.link _) => .error .notDirectory
      | .dir, some .dir =>
        if (disk.namesIn new).isEmpty then .ok (disk.moveTree old new) else .error .notEmpty
      | .dir, none => .ok (disk.moveTree old new)
      | _, some .dir => .error .isDirectory
      | entry, _ => .ok ((disk.erase old).put new entry)

def rename (disk : Disk) (source target : Path) : Except Fault Disk :=
  match unusable? source.text <|> unusable? target.text with
  | some fault => .error fault
  | none =>
    let moved : Except Code Disk := do
      let old ← disk.lookUp .entry source
      let new ← disk.lookUp .entry target
      if isUnnamed source || isUnnamed target then throw .busy
      disk.move old new
    moved.mapError fun code => Fault.between code source.text target.text

/-- Checks that what a path leads to can be opened: something stands there, and a file is readable
for its owner. -/
def checkOpen (disk : Disk) (path : Path) : Except Fault Unit := do
  match disk.get? (← disk.locate path) with
  | some (.file _ mode) => if mode &&& 0o400 = 0 then throw (Fault.at .permission path.text)
  | some _ => return
  | none => throw (Fault.at .notFound path.text)

def removeTree (disk : Disk) (path : Path) : Except Fault Disk := do
  let place ← disk.locateEntry path
  disk.checkOpen path
  match disk.get? place with
  | none => throw (Fault.at .notFound path.text)
  | some (.link _) => throw .linkedTree
  | some (.file _ _) =>
    throw (.met .notDirectory ["PosixPath(" ++ Text.quoted path.text ++ ")"])
  | some .dir => return disk.eraseTree place

/-- Removes a file, a link, or a directory and all below it. -/
def removeAny (disk : Disk) (path : Path) : Except Fault Disk := do
  let place ← disk.locateEntry path
  match disk.get? place with
  | none => throw (Fault.at .notFound path.text)
  | some _ => return disk.eraseTree place

def list (disk : Disk) (path : Path) : Except Fault (List String) := do
  let place ← disk.locate path
  match disk.get? place with
  | none => throw (Fault.at .notFound path.text)
  | some .dir => return disk.namesIn place
  | some _ => throw (Fault.at .notDirectory path.text)

/-- What stands below a place, each with its path from there and in order of these; of the
directories only the empty ones. -/
def leaves (disk : Disk) (top : Place) : List (String × Entry) :=
  let found := (disk.below top).filter fun (names, entry) =>
    match entry with
    | .dir => (disk.namesIn (top ++ names)).isEmpty
    | _ => true
  (found.map fun (names, entry) => ("/".intercalate names, entry)).mergeSort fun left right =>
    !(right.1 < left.1)

/-- What is found at a path: nothing, no directory, or a directory and what stands below it. -/
inductive Sight where
  | missing
  | notDirectory
  | directory (leaves : List (String × Entry))
deriving Repr

/-- Looks through what is at a path, and reads every file there. -/
def survey (disk : Disk) (path : Path) : Except Fault Sight := do
  if (unusable? path.text).isSome then return .missing
  match ← disk.status path with
  | none => return .missing
  | some .dir =>
    let found := disk.leaves (← disk.locate path)
    found.forM fun (name, entry) => do
      if entry matches .file _ _ then
        let _ ← disk.read (path.child name)
    return .directory found
  | some _ => return .notDirectory

end Whittle.Disk
