import Std.Data.HashSet
import Whittle.Chunk
import Whittle.Pass
import Whittle.Project

/-!
The candidates that a pass proposes for a project, the boldest first. A pass keeps
no state: asked again with the position of an accepted candidate, it goes on from
there on the new trees.
-/

namespace Whittle.Pass

/-- The chunk that a position of two numbers names. -/
def chunkAt : Option (List Int) → Option (Int × Int)
  | some [size, offset] => some (size, offset)
  | _ => none

def bookmark (passIndex : Int) (path : Option String) (position : List Int) : Bookmark :=
  { passIndex, path := Value.ofText? path, position := some position }

def sizeOf (project : Project) (paths : List String) : Nat :=
  Bytes.total <| paths.map fun path =>
    match Listing.get? project.files path with
    | some file => file.data.length
    | none => 0

/-- Removals of runs of files, but not of all and not of empty ones only. -/
def fileRemovals (project : Project) (passIndex : Int) (position : Option (List Int)) :
    List Candidate :=
  let paths := project.paths
  (Chunk.plan paths.length (chunkAt position)).filterMap fun (size, offset) =>
    let chunk := (paths.drop offset).take size
    if paths.length ≤ chunk.length || sizeOf project chunk = 0 then none
    else some {
      passName := removeFiles.name
      removed := chunk
      bookmark := bookmark passIndex none [size, offset]
      description := s!"remove {chunk.length} file(s): " ++ ", ".intercalate chunk }

/-- The blocks of a tree that have children, in pre-order. -/
def blocks (tree : Tree) (grammar : Grammar) : List Nat :=
  tree.walk.filter fun index =>
    match tree.nodes[index]? with
    | some node => !node.children.isEmpty && (grammar.kind node.kind).block
    | none => false

/-- Where a run of siblings starts and ends: it ends where the next sibling starts, so that what
stands between them goes with it. -/
def siblingRange (tree : Tree) (children : Array Nat) (first last : Nat) : Int × Int :=
  let nodeAt (index : Nat) : Node := ((children[index]?).bind (tree.nodes[·]?)).getD default
  let stop := if last + 1 < children.size then (nodeAt (last + 1)).start else (nodeAt last).stop
  ((nodeAt first).start, stop)

/-- Removals of runs of siblings in one block, which has the number `group`. -/
def siblingRemovals (tree : Tree) (path : String) (passIndex : Int) (group : Int) (block : Nat)
    (start : Option (Int × Int)) : List Candidate :=
  let node := (tree.nodes[block]?).getD default
  let children := node.children
  let count := children.size
  let kind := node.kind
  (Chunk.plan count start).filterMap fun (size, offset) =>
    let last := min (offset + size) count - 1
    let (first, stop) := siblingRange tree children offset last
    if stop ≤ first then none
    else some {
      passName := deleteSiblings.name
      path := some path
      splices := [{ start := first, stop }]
      bookmark := bookmark passIndex (some path) [group, size, offset]
      description :=
        s!"delete {last - offset + 1} of {count} children of {kind} in {path} [{first}:{stop}]" }

/-- The block that a position of three numbers names, and the chunk in it. -/
def groupAt : Option (List Int) → Int × Option (Int × Int)
  | some [group, size, offset] => (group, some (size, offset))
  | _ => (0, none)

/-- Some blocks with numbers that count up from `first`. -/
def numbered (first : Int) : List Nat → List (Int × Nat)
  | [] => []
  | block :: rest => (first, block) :: numbered (first + 1) rest

/-- The blocks from number `first` on; a number below zero counts from the end, and after the last
block come all of them. -/
def groupsFrom (groups : List Nat) (first : Int) : Except Failure (List (Int × Nat)) :=
  if 0 ≤ first then .ok (numbered first (groups.drop first.toNat))
  else
    match Signed.index? groups.length first with
    | some index => .ok (numbered first (groups.drop index) ++ numbered 0 groups)
    | none => .error .outOfRange

/-- Removals of runs of siblings in every block of a file. -/
def blockRemovals (project : Project) (path : String) (passIndex : Int)
    (position : Option (List Int)) : Except Failure (List Candidate) := do
  let file ← project.file path
  let grammar ← project.grammarOf path
  let (first, start) := groupAt position
  let groups ← groupsFrom (blocks file.tree grammar) first
  return groups.flatMap fun (group, block) =>
    siblingRemovals file.tree path passIndex group block (if group = first then start else none)

/-- A node to be replaced: its index, itself, and what comes in its place. -/
abbrev Target := Nat × Node × Bytes

/-- The nodes that have a shorter replacement, in pre-order, with the first such replacement. -/
def replaceable (tree : Tree) (grammar : Grammar) : List Target :=
  let source := tree.source.toArray
  tree.walk.filterMap fun index => do
    let node ← tree.nodes[index]?
    let text := Signed.extract source node.start node.stop
    if text.all Bytes.isBlank then none
    else
      let replacement ← (grammar.kind node.kind).simpler.find? (·.length < text.size)
      return (index, node, replacement)

/-- The replacements of some nodes; a node inside another of them goes with it. -/
def replacements (tree : Tree) (chunk : List Target) : List Splice :=
  let chosen := Std.HashSet.ofList (chunk.map fun target => (target.1 : Int))
  let outer := chunk.filter fun target => !tree.anyAncestor chosen.contains target.1
  let splices := outer.map fun (_, node, replacement) =>
    { start := node.start, stop := node.stop, replacement : Splice }
  splices.mergeSort fun left right => left.start ≤ right.start

def simplifications (project : Project) (path : String) (passIndex : Int)
    (position : Option (List Int)) : Except Failure (List Candidate) := do
  let file ← project.file path
  let grammar ← project.grammarOf path
  let targets := (replaceable file.tree grammar).toArray
  return (Chunk.plan targets.size (chunkAt position)).map fun (size, offset) =>
    let splices := replacements file.tree (targets.extract offset (offset + size)).toList
    { passName := replaceSimpler.name
      path := some path
      splices
      bookmark := bookmark passIndex (some path) [size, offset]
      description := s!"simplify {splices.length} node(s) in {path}" }

/-- Removals of runs of lines of a file; each line takes its newline with it. -/
def lineRemovals (project : Project) (path : String) (passIndex : Int)
    (position : Option (List Int)) : Except Failure (List Candidate) := do
  let data := (← project.file path).data
  let total := data.length
  let starts := (data.lineStarts.filter (· < total)).toArray
  let stops := (starts.extract 1 starts.size).push total
  return (Chunk.plan starts.size (chunkAt position)).map fun (size, offset) =>
    let last := min (offset + size) starts.size - 1
    { passName := removeLines.name
      path := some path
      splices := [{ start := starts.getD offset 0, stop := stops.getD last 0 }]
      bookmark := bookmark passIndex (some path) [size, offset]
      description := s!"remove lines {offset + 1}-{last + 1} of {path}" }

/-- The bytes with the blanks at line ends and the empty lines taken away. -/
def withoutBlanks (data : Bytes) : Bytes :=
  let kept := (data.lines.map Bytes.trimEnd).filter (!·.isEmpty)
  kept.flatMap fun line => line ++ [Bytes.newline]

/-- The replacement of a file by itself without blanks, if that is shorter. -/
def blankRemovals (project : Project) (path : String) (passIndex : Int) :
    Except Failure (List Candidate) := do
  let data := (← project.file path).data
  let reduced := withoutBlanks data
  if data.length ≤ reduced.length then return []
  return [{
    passName := discardWhitespace.name
    path := some path
    splices := [{ start := 0, stop := data.length, replacement := reduced }]
    bookmark := bookmark passIndex (some path) [0]
    description := s!"discard whitespace in {path}" }]

def proposals (pass : Pass) (project : Project) (path : Option String) (passIndex : Int)
    (position : Option (List Int)) : Except Failure (List Candidate) :=
  match pass, path with
  | .removeFiles, _ => .ok (fileRemovals project passIndex position)
  | _, none => .error (.untracked none)
  | .deleteSiblings, some path => blockRemovals project path passIndex position
  | .replaceSimpler, some path => simplifications project path passIndex position
  | .removeLines, some path => lineRemovals project path passIndex position
  | .discardWhitespace, some path => blankRemovals project path passIndex

end Whittle.Pass
