import Whittle.Disk
import Whittle.Disk.Fault

/-!
Looking up paths. Every name but the last must lead to a directory, links are
followed on the way, and after forty of them the lookup gives up; names and paths
have a greatest length. A path may also be resolved without asking that anything
stands there.
-/

namespace Whittle.Disk

def linkLimit : Nat := 40

def nameLimit : Nat := 255

def pathLimit : Nat := 4095

/-! ### Places -/

/-- What a lookup is for: what stands at a path itself, be it a link; what the path leads to,
through a link at its end; or a file that is to be made there if there is none. -/
inductive Aim where
  | entry
  | target
  | creation
deriving DecidableEq, Repr

/-- Whether a name stands for the directory it is looked up in, or asks that there is one. -/
def isHere (name : String) : Bool :=
  name = "." || name = ""

/-- The names in the target of a link; a slash at the end asks for a directory, and is an empty name
unless the name before it does so already. -/
def stepsOf (target : String) : List String :=
  let names := (Path.allNames target).filter (· ≠ "")
  let asks := target.endsWith "/" && names.getLast?.any fun name => name ≠ "." && name ≠ ".."
  if asks then names ++ [""] else names

/-- The place that names lead to from the directory at `place`, where `follow` goes on behind a link;
nothing need stand at the last of them. No file is made where a directory is asked for. -/
def walkBy (disk : Disk) (aim : Aim) (follow : Place → List String → Except Code Place)
    (place : Place) : List String → Except Code Place
  | [] => .ok place
  | name :: rest =>
    if isHere name then walkBy disk aim follow place rest
    else if name = ".." then walkBy disk aim follow place.dropLast rest
    else if aim = .creation && rest = [""] then .error .isDirectory
    else if Text.exceeds nameLimit name then .error .nameTooLong
    else
      let next := place ++ [name]
      match disk.get? next with
      | some (.link target) =>
        if rest.isEmpty && aim = .entry then .ok next
        else follow (if target.startsWith "/" then [] else place) (stepsOf target ++ rest)
      | some .dir => walkBy disk aim follow next rest
      | some (.file _ _) => if rest.isEmpty then .ok next else .error .notDirectory
      | none => if rest.isEmpty then .ok next else .error .notFound

/-- The place that names lead to from a directory, with so many links to follow at most. -/
def walk (disk : Disk) (aim : Aim) : (links : Nat) → Place → List String → Except Code Place
  | 0 => walkBy disk aim fun _ _ => .error .linkLoop
  | left + 1 => walkBy disk aim (walk disk aim left)

def lookUp (disk : Disk) (aim : Aim) (path : Path) : Except Code Place :=
  if Text.exceeds pathLimit path.text then .error .nameTooLong
  else walk disk aim linkLimit (disk.startOf path) path.names

/-- Why a text cannot be a path, even before anything is looked up: it has no bytes, or holds the
character that ends paths. -/
def unusable? (text : String) : Option Fault :=
  match Text.unencodable? true text with
  | some fault => some (.unencodable fault)
  | none => if text.toList.contains (Char.ofNat 0) then some .nullByte else none

/-- A place found, or the fault met at a path. -/
def atPath {α : Type} (path : Path) (result : Except Code α) : Except Fault α :=
  match unusable? path.text with
  | some fault => .error fault
  | none => result.mapError fun code => Fault.at code path.text

/-- The place that a path leads to, through a link at its end. -/
def locate (disk : Disk) (path : Path) : Except Fault Place :=
  atPath path (disk.lookUp .target path)

def locateEntry (disk : Disk) (path : Path) : Except Fault Place :=
  atPath path (disk.lookUp .entry path)

/-- The place at which a file is to be made, or written if there is one. -/
def locateFile (disk : Disk) (path : Path) : Except Fault Place :=
  atPath path (disk.lookUp .creation path)

/-! ### What stands there -/

/-- What a path leads to; a path that cannot be asked about is a fault. -/
def status (disk : Disk) (path : Path) : Except Fault (Option Entry) :=
  if (unusable? path.text).isSome then .ok none
  else match disk.lookUp .target path with
    | .ok place => .ok (disk.get? place)
    | .error code => if code.meansAbsent then .ok none else .error (Fault.at code path.text)

def pathExists (disk : Disk) (path : Path) : Except Fault Bool :=
  (disk.status path).map Option.isSome

def isFile (disk : Disk) (path : Path) : Except Fault Bool :=
  (disk.status path).map fun found =>
    match found with
    | some (.file _ _) => true
    | _ => false

def isDir (disk : Disk) (path : Path) : Except Fault Bool :=
  (disk.status path).map (· = some .dir)

/-! ### Resolving -/

/-- The names without those that stand for the directory before them, and without `..`, each of
which takes the name before it away. -/
def normalized (names : List String) : Place :=
  names.foldl (fun place name =>
    if isHere name then place
    else if name = ".." then place.dropLast
    else place ++ [name]) []

/-- The place of a path that leads through no link. -/
def placeOf (disk : Disk) (path : Path) : Place :=
  normalized (disk.startOf path ++ path.names)

/-- The directory above a path; above where a relative path starts from there are only more. -/
def upward (path : Path) : Path :=
  match path.names.getLast? with
  | none | some ".." => if path.isAbsolute then path else path.child ".."
  | some _ => { path with names := path.names.dropLast }

/-- A path and what is to be followed after it; what begins with a slash goes on from the top. -/
def continued (path : Path) (rest : List String) : Path :=
  match rest with
  | "" :: _ :: _ => Path.ofText ("/".intercalate rest)
  | rest => { path with names := path.names ++ rest }

/-- The links met in resolving a path, each with the path it stands for, once that is known. -/
abbrev Met := List (Path × Option Path)

/-- Follows names after a path that leads through no link, without asking that anything stands
there; answers whether no link led back to itself. Links are followed by `follow`, if at all. -/
def unfoldBy (disk : Disk) (follow : Option (Met → Path → List String → Path × Bool × Met))
    (met : Met) (path : Path) : List String → Path × Bool × Met
  | [] => (path, true, met)
  | name :: rest =>
    if isHere name then unfoldBy disk follow met path rest
    else if name = ".." then unfoldBy disk follow met (upward path) rest
    else
      let next := path.child name
      match disk.get? (disk.placeOf next) with
      | some (.link target) =>
        match met.lookup next, follow with
        | some (some found), _ => unfoldBy disk follow met found rest
        | some none, _ | none, none => (continued next rest, false, met)
        | none, some inner =>
          let start := if target.startsWith "/" then Path.ofText "/" else path
          match inner ((next, none) :: met) start (Path.allNames target) with
          | (found, true, met) => unfoldBy disk follow ((next, some found) :: met) found rest
          | (found, false, met) => (continued found rest, false, met)
      | _ => unfoldBy disk follow met next rest

/-- Follows names after a path that leads through no link. `depth` bounds the links inside links. -/
def unfold (disk : Disk) : (depth : Nat) → Met → Path → List String → Path × Bool × Met
  | 0 => unfoldBy disk none
  | left + 1 => unfoldBy disk (some (unfold disk left))

/-- The absolute path without links. Links that run in a circle are left as they are; that is a
fault only if the path still leads through them. -/
def resolve (disk : Disk) (path : Path) : Except Fault Path :=
  match unusable? path.text with
  | some fault => .error fault
  | none =>
    let start := Path.ofText (if path.isAbsolute then "/" else "")
    let (found, _) := disk.unfold (2 * disk.entries.length) [] start path.names
    let whole : Path :=
      { root := if found.isAbsolute then found.root else "/", names := disk.placeOf found }
    match disk.lookUp .target whole with
    | .error .linkLoop => .error (.circle whole.text)
    | _ => .ok whole

end Whittle.Disk
