import Whittle.Candidate
import Whittle.Disk.Change
import Whittle.Grammar.Registry
import Whittle.Step

/-!
Projects: the accepted bytes of every tracked file with their tree. A candidate
is first applied on the side, which yields new bytes and fresh trees; only a
commit makes them the accepted ones.
-/

namespace Whittle

/-- A tracked file: its accepted bytes, their tree, and the name of its grammar. -/
structure TrackedFile where
  data : Bytes
  tree : Tree
  grammar : String
deriving DecidableEq, Repr, Inhabited

/-- A project: its root, its tracked files, and the names of those removed so far. -/
structure Project where
  root : Path
  files : Listing TrackedFile
  registry : Grammar.Registry
  removed : List String := []
deriving Repr

namespace Project

/-- A candidate on the side: new bytes (none for a removed file), fresh trees, and the size that the
project would have. -/
structure Buffers where
  contents : Listing (Option Bytes)
  trees : Listing Tree
  size : Nat
deriving Repr

def paths (project : Project) : List String :=
  sortNames (Listing.names project.files)

def size (project : Project) : Nat :=
  Bytes.total (project.files.map fun file => file.2.data.length)

def contents (project : Project) : Listing Bytes :=
  project.files.map fun file => (file.1, file.2.data)

def tracks (project : Project) (path : String) : Bool :=
  Listing.has project.files path

def file (project : Project) (path : String) : Except Failure TrackedFile :=
  match Listing.get? project.files path with
  | some file => .ok file
  | none => .error (.untracked path)

def grammarOf (project : Project) (path : String) : Except Failure Grammar := do
  project.registry.get (← project.file path).grammar

def parseFile (parsers : Parsers) (registry : Grammar.Registry) (path : String) (data : Bytes) :
    Except Failure TrackedFile := do
  let grammar ← registry.select path
  match grammar.parse parsers data with
  | .ok tree => return { data, tree, grammar := grammar.name }
  | .error (.unparsed reason _) => throw (.load (.unparsed path grammar.name reason))
  | .error failure => throw failure

def ofContents (parsers : Parsers) (registry : Grammar.Registry) (root : Path)
    (contents : Listing Bytes) (removed : List String := []) : Except Failure Project := do
  let files ← contents.mapM fun entry => do
    return (entry.1, ← parseFile parsers registry entry.1 entry.2)
  return { root, files, registry, removed := sortUnique removed }

def readAll (disk : Disk) (root : Path) (paths : List String) :
    Except Failure (List (String × Bytes)) :=
  paths.mapM fun path =>
    match disk.read (root.child path) with
    | .ok data => .ok (path, data)
    | .error fault =>
      if fault.isSystem then .error (.load (.unreadable path fault.message))
      else .error (.disk fault)

def load (parsers : Parsers) (registry : Grammar.Registry) (disk : Disk) (root : Path)
    (paths : List String) : Except Failure Project := do
  ofContents parsers registry root (Listing.ofList (← readAll disk root paths))

def reparse (parsers : Parsers) (project : Project) (path : String) (data : Bytes) :
    Except Failure Tree := do
  let grammar ← project.grammarOf path
  match grammar.parse parsers data with
  | .error (.unparsed reason offset) => throw (.candidateUnparsed path reason offset)
  | result => result

/-- The new bytes and the tree of the file that a candidate splices, if it splices one. -/
def spliced (parsers : Parsers) (project : Project) (candidate : Candidate) :
    Except Failure (Option (String × Bytes × Tree)) := do
  match candidate.path with
  | none => return none
  | some path =>
    if candidate.splices.isEmpty then return none
    let file ← project.file path
    let data ← candidate.spliceInto file.data
    return some (path, data, ← project.reparse parsers path data)

def sizeAfter (contents : Listing (Option Bytes)) (file : String × TrackedFile) : Nat :=
  match Listing.get? contents file.1 with
  | some data => (data.getD []).length
  | none => file.2.data.length

def apply (parsers : Parsers) (project : Project) (candidate : Candidate) :
    Except Failure Buffers := do
  let change ← project.spliced parsers candidate
  match candidate.removed.find? fun path => !project.tracks path with
  | some path => throw (.untrackedRemoval path)
  | none =>
    let written : Listing (Option Bytes) :=
      change.toList.map fun (path, data, _) => (path, some data)
    let parsed : Listing Tree := change.toList.map fun (path, _, tree) => (path, tree)
    let contents :=
      candidate.removed.foldl (fun listing path => Listing.set listing path none) written
    let trees := candidate.removed.foldl Listing.erase parsed
    return { contents, trees, size := Bytes.total (project.files.map (sizeAfter contents)) }

def commitFile (project : Project) (trees : Listing Tree) (path : String) :
    Option Bytes → Except Failure Project
  | none => do
    let _ ← project.file path
    return { project with files := Listing.erase project.files path }
  | some data => do
    let file ← project.file path
    match Listing.get? trees path with
    | some tree =>
      return { project with files := Listing.set project.files path { file with data, tree } }
    | none => throw (.untracked path)

/-- Makes the buffers of some files the accepted ones, up to the first that fails. -/
def commitFiles (project : Project) (trees : Listing Tree) :
    Listing (Option Bytes) → Except Failure Unit × Project
  | [] => (.ok (), project)
  | (path, data) :: rest =>
    match project.commitFile trees path data with
    | .ok changed => changed.commitFiles trees rest
    | .error failure => (.error failure, project)

/-- Makes the buffers of a candidate the accepted ones. -/
def commit (project : Project) (buffers : Buffers) : Except Failure Unit × Project :=
  match project.commitFiles buffers.trees buffers.contents with
  | (.ok (), changed) =>
    let gone := (buffers.contents.filter fun entry => entry.2.isNone).map Prod.fst
    (.ok (), { changed with removed := sortUnique (changed.removed ++ gone) })
  | failed => failed

end Project
end Whittle
