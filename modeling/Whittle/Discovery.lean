import Whittle.Disk.Change
import Whittle.Grammar.Registry
import Whittle.Pattern

/-!
Which files of a project are reduced: those given by name, or those found below
the root. Files in hidden directories, in skipped directories and behind links are
not found; patterns choose among the others, and without patterns to include, the
files that have a grammar of their own are chosen.
-/

namespace Whittle.Discovery

/-- What is asked of the files to be found: patterns of those to include and of those to leave out,
and directories that are not searched. -/
structure Query where
  included : Value := .null
  excluded : Value := .list []
  skipped : List Path := []

/-- The absolute path without links. -/
def resolve (disk : Disk) (path : Path) : Except Failure Path :=
  (disk.resolve path).mapError .disk

/-- Whether a name is like one of some patterns; a pattern that is no text is a fault when it is
reached. -/
def matchesSome (name : String) : List Value → Except Failure Bool
  | [] => .ok false
  | .text pattern :: rest => if matchesPattern pattern name then .ok true else matchesSome name rest
  | .bytes _ :: _ => .error (.value .bytesAsPattern)
  | pattern :: _ => .error (.value (.notPath pattern.kind))

/-- Whether a name is like one of the patterns that a value holds. -/
def matchesAny (name : String) (patterns : Value) : Except Failure Bool := do
  matchesSome name (← patterns.items.mapError .value)

def isHidden (name : String) : Bool :=
  name.startsWith "."

/-- Whether a file with these names below the root is to be found. -/
def wanted (registry : Grammar.Registry) (query : Query) (root : Disk.Place)
    (skipped : List Disk.Place) (below : List String) : Except Failure Bool := do
  let name := "/".intercalate below
  if below.dropLast.any isHidden then return false
  if skipped.any (·.isPrefixOf (root ++ below)) then return false
  if ← matchesAny name query.excluded then return false
  if query.included.isNull then return registry.covers name
  matchesAny name query.included

/-- The files below a place, links apart, by the names that lead to them. -/
def filesBelow (disk : Disk) (top : Disk.Place) : List (List String) :=
  (disk.below top).filterMap fun (names, _) =>
    match disk.get? (top ++ names) with
    | some (.file _ _) => some names
    | _ => none

/-- The files to reduce below a root, in order of their names. -/
def find (disk : Disk) (registry : Grammar.Registry) (root : Path) (query : Query) :
    Except Failure (List String) := do
  let root ← resolve disk root
  let skipped ← query.skipped.mapM (resolve disk)
  let found ← (filesBelow disk root.names).filterM fun below =>
    wanted registry query root.names (skipped.map (·.names)) below
  return sortNames (found.map fun below => "/".intercalate below)

/-- The name below a resolved root of a file that was given by name. -/
def nameBelow (disk : Disk) (root : Path) (file : Value) : Except Failure String := do
  let name ← file.toPathText.mapError .value
  let path ← resolve disk (root.child name)
  if !root.names.isPrefixOf path.names then throw (.load (.outside name root.text))
  if !(← (disk.isFile path).mapError .disk) then throw (.load (.notFile name))
  return "/".intercalate (path.names.drop root.names.length)

/-- The names below a root of files that were given by name, in order and each once. -/
def normalize (disk : Disk) (root : Path) (files : List Value) : Except Failure (List String) := do
  let root ← resolve disk root
  return sortUnique (← files.mapM (nameBelow disk root))

end Whittle.Discovery
