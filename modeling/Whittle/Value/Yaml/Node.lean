import Whittle.Value.Yaml.Token

/-!
Nodes: the structure that tokens make. A node that is left out is an empty plain
scalar. Every node has a number, and lists and mappings tell the numbers of what is in
them; so a node may stand in several places, even inside itself.
-/

namespace Whittle.Value.Yaml

/-- What is in a node: what is written in a scalar, and whether that stands without quotes, or the
numbers of the items of a list or of the keys and values of a mapping. -/
inductive Content where
  | scalar (written : String) (plain : Bool)
  | sequence (items : List Nat)
  | mapping (entries : Array (Nat × Nat))

/-- A node, with the tag that it was given. -/
structure Node where
  tag : Option String
  content : Content

/-- A document: the number of its outermost node, its nodes by number, and the numbers in the order
in which the nodes end. -/
structure Document where
  top : Nat
  nodes : Array Node
  order : List Nat

namespace Node

def missing : Node :=
  { tag := none, content := .scalar "" true }

/-- How many lists and mappings may stand inside each other. -/
def depthLimit : Nat := 488

/-- Why no document is made: the tokens do not belong together, there are too few of them, or too
many nodes stand inside each other. -/
inductive Stop where
  | malformed
  | starved
  | tooDeep
deriving DecidableEq, Repr

/-- The state of building nodes: the tokens left, the meanings of names and of the handles of tags,
how many nodes are begun, the nodes that are complete, latest first, and how many lists and mappings
are open. -/
structure Build where
  tokens : List Token
  anchors : List (String × Nat) := []
  handles : List (String × String) := []
  begun : Nat := 0
  complete : List (Nat × Node) := []
  depth : Nat := 0

abbrev Builder (α : Type) := StateT Build (Except Stop) α

def standardTag (name : String) : String :=
  "tag:yaml.org,2002:" ++ name

namespace Builder

def malformed {α : Type} : Builder α :=
  throw .malformed

def next : Builder Token := do
  match (← get).tokens with
  | token :: _ => return token
  | [] => throw .starved

def skip : Builder Unit :=
  modify fun build => { build with tokens := build.tokens.drop 1 }

def nextIsOneOf (tokens : List Token) : Builder Bool := do
  return tokens.contains (← next)

def skipIf (token : Token) : Builder Bool := do
  if (← next) = token then
    skip
    return true
  return false

/-- Takes the next token, which must be the one given. -/
def expect (token : Token) : Builder Unit := do
  if !(← skipIf token) then malformed

/-- The meanings that handles have unless a directive says otherwise. -/
def usualHandles : List (String × String) :=
  [("!", "!"), ("!!", standardTag "")]

/-- The full name of a tag, whose handle must be known. -/
def tagName (handle : Option String) (suffix : String) : Builder String := do
  match handle with
  | none => return suffix
  | some handle =>
    match ((← get).handles ++ usualHandles).lookup handle with
    | some meaning => return meaning ++ suffix
    | none => malformed

/-- Takes the name and the tag before a node, in either order. -/
def properties (fuel : Nat) (anchor : Option String) (tag : Option (Option String × String)) :
    Builder (Option String × Option (Option String × String)) := do
  match fuel with
  | 0 => return (anchor, tag)
  | fuel + 1 =>
    match ← next, anchor, tag with
    | .anchor name, none, _ =>
      skip
      properties fuel (some name) tag
    | .tag handle suffix, _, none =>
      skip
      properties fuel anchor (some (handle, suffix))
    | _, _, _ => return (anchor, tag)

/-- Begins a node: it gets the next number, and its name, which must be new, stands for it. -/
def enter (anchor : Option String) : Builder Nat := do
  let build ← get
  let number := build.begun
  let anchors ← match anchor with
    | none => pure build.anchors
    | some name =>
      if (build.anchors.lookup name).isSome then malformed
      pure ((name, number) :: build.anchors)
  set { build with begun := number + 1, anchors }
  return number

def complete (number : Nat) (node : Node) : Builder Nat := do
  modify fun build => { build with complete := (number, node) :: build.complete }
  return number

def scalar (anchor : Option String) (node : Node) : Builder Nat := do
  complete (← enter anchor) node

def leftOut : Builder Nat :=
  scalar none missing

/-- Takes a list or a mapping by the step for it; its name is known in it already. -/
def part (anchor tag : Option String) (content : Builder Content) : Builder Nat := do
  let number ← enter anchor
  if depthLimit ≤ (← get).depth then throw .tooDeep
  modify fun build => { build with depth := build.depth + 1 }
  let content ← content
  modify fun build => { build with depth := build.depth - 1 }
  complete number { tag, content }

mutual

/-- Takes a node; `block` says whether it may be a block, `indentless` whether it may be a list of
items that are not indented. -/
def node (fuel : Nat) (block indentless : Bool) : Builder Nat := do
  match fuel with
  | 0 => malformed
  | fuel + 1 =>
    if let .alias name ← next then
      skip
      match (← get).anchors.lookup name with
      | some found => return found
      | none => malformed
    let (anchor, written) ← properties 2 none none
    let tag ← written.mapM fun (handle, suffix) => tagName handle suffix
    match ← next with
    | .scalar written plain =>
      skip
      scalar anchor { tag, content := .scalar written plain }
    | .openSequence =>
      part anchor tag do
        skip
        return .sequence (← flowItems fuel [])
    | .openMapping =>
      part anchor tag do
        skip
        return .mapping (← flowEntries fuel []).toArray
    | first =>
      if first = .blockEntry && indentless then
        let ends := [Token.blockEntry, Token.key, Token.value, Token.blockEnd]
        part anchor tag do return .sequence (← blockItems fuel ends [])
      else if first = .blockSequence && block then
        part anchor tag do
          skip
          let items ← blockItems fuel [.blockEntry, .blockEnd] []
          expect .blockEnd
          return .sequence items
      else if first = .blockMapping && block then
        part anchor tag do
          skip
          let entries ← blockEntries fuel []
          expect .blockEnd
          return .mapping entries.toArray
      else
        if anchor.isNone && tag.isNone then malformed
        scalar anchor { missing with tag }

/-- Takes a node, unless one of the tokens given stands in its place. -/
def nodeUnless (fuel : Nat) (block indentless : Bool) (ends : List Token) : Builder Nat := do
  match fuel with
  | 0 => malformed
  | fuel + 1 => if ← nextIsOneOf ends then leftOut else node fuel block indentless

/-- Takes the items of a list in a block, after those `taken` in reverse order; `ends` says which
tokens show that an item is missing. -/
def blockItems (fuel : Nat) (ends : List Token) (taken : List Nat) : Builder (List Nat) := do
  match fuel with
  | 0 => malformed
  | fuel + 1 =>
    if !(← skipIf .blockEntry) then return taken.reverse
    let item ← nodeUnless fuel true false ends
    blockItems fuel ends (item :: taken)

def blockEntries (fuel : Nat) (taken : List (Nat × Nat)) : Builder (List (Nat × Nat)) := do
  match fuel with
  | 0 => malformed
  | fuel + 1 =>
    if !(← skipIf .key) then return taken.reverse
    let ends := [Token.key, Token.value, Token.blockEnd]
    let key ← nodeUnless fuel true true ends
    let value ← if ← skipIf .value then nodeUnless fuel true true ends else leftOut
    blockEntries fuel ((key, value) :: taken)

/-- Takes the key and the value of an entry between brackets, after the mark of the key. -/
def flowEntry (fuel : Nat) (closing : Token) : Builder (Nat × Nat) := do
  match fuel with
  | 0 => malformed
  | fuel + 1 =>
    let key ← nodeUnless fuel false false [.value, .flowEntry, closing]
    let value ←
      if ← skipIf .value then nodeUnless fuel false false [.flowEntry, closing] else leftOut
    return (key, value)

/-- Takes the items of a list between brackets, and the closing one. -/
def flowItems (fuel : Nat) (taken : List Nat) : Builder (List Nat) := do
  match fuel with
  | 0 => malformed
  | fuel + 1 =>
    if ← skipIf .closeSequence then return taken.reverse
    if !taken.isEmpty then expect .flowEntry
    if ← skipIf .closeSequence then return taken.reverse
    let item ← if ← skipIf .key
      then part none none do return .mapping #[← flowEntry fuel .closeSequence]
      else node fuel false false
    flowItems fuel (item :: taken)

/-- Takes the entries of a mapping between brackets, and the closing one. -/
def flowEntries (fuel : Nat) (taken : List (Nat × Nat)) : Builder (List (Nat × Nat)) := do
  match fuel with
  | 0 => malformed
  | fuel + 1 =>
    if ← skipIf .closeMapping then return taken.reverse
    if !taken.isEmpty then expect .flowEntry
    if ← skipIf .closeMapping then return taken.reverse
    let entry ← if ← skipIf .key then flowEntry fuel .closeMapping
      else do
        let key ← node fuel false false
        pure (key, ← leftOut)
    flowEntries fuel (entry :: taken)

end

def skipDocumentEnds (fuel : Nat) : Builder Unit := do
  match fuel with
  | 0 => return
  | fuel + 1 => if ← skipIf .documentEnd then skipDocumentEnds fuel

/-- Takes the directives before a document; `versioned` says whether a version was told. -/
def directives (fuel : Nat) (versioned : Bool) : Builder Unit := do
  match fuel, ← next with
  | fuel + 1, .version major =>
    skip
    if versioned || major ≠ 1 then malformed
    directives fuel true
  | fuel + 1, .handle name meaning =>
    skip
    if ((← get).handles.lookup name).isSome then malformed
    modify fun build => { build with handles := (name, meaning) :: build.handles }
    directives fuel versioned
  | fuel + 1, .directive =>
    skip
    directives fuel versioned
  | _, _ => return

def isDirective : Token → Bool
  | .version _ | .handle _ _ | .directive => true
  | _ => false

def document (fuel : Nat) : Builder Nat := do
  let first ← next
  let found ←
    if first = .streamEnd then leftOut
    else if isDirective first || first = .documentStart then do
      directives fuel false
      expect .documentStart
      if isDirective (← next) then leftOut
      else nodeUnless fuel true false [.documentStart, .documentEnd, .streamEnd]
    else node fuel true false
  skipDocumentEnds fuel
  expect .streamEnd
  return found

end Builder

end Node

def Node.Build.nodes (build : Node.Build) : Array Node :=
  build.complete.foldl (fun nodes entry => nodes.setIfInBounds entry.1 entry.2)
    (Array.replicate build.begun Node.missing)

/-- The document that tokens make; there must be one. -/
def Document.ofTokens (tokens : List Token) : Except Node.Stop Document := do
  let (top, build) ← (Node.Builder.document (4 * tokens.length + 4)).run { tokens }
  return { top, nodes := build.nodes, order := (build.complete.map Prod.fst).reverse }

end Whittle.Value.Yaml
