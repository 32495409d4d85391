import Whittle.Bytes

/-!
Syntax trees over a byte string, kept as a list of nodes that name each other by
index; the root is node 0. A tree grows by adding nodes under earlier ones.
Indices and offsets may count from the end.
-/

namespace Whittle

/-- A node: its kind, its byte range, and its neighbours in the tree. -/
structure Node where
  kind : String
  start : Int
  stop : Int
  children : Array Nat := #[]
  parent : Option Int := none
deriving DecidableEq, Repr, Inhabited

namespace Node

def size (node : Node) : Int :=
  node.stop - node.start

end Node

/-- A syntax tree. -/
structure Tree where
  source : Bytes
  nodes : Array Node := #[]
deriving DecidableEq, Repr, Inhabited

namespace Tree

def node? (tree : Tree) (index : Int) : Option Node :=
  (Signed.index? tree.nodes.size index).bind (tree.nodes[·]?)

/-- The children of a node; a node that is not there has none. -/
def childrenOf (tree : Tree) (index : Nat) : List Nat :=
  match tree.nodes[index]? with
  | some node => node.children.toList
  | none => []

def text (tree : Tree) (node : Node) : Bytes :=
  Signed.slice tree.source node.start node.stop

/-- The first `limit` nodes in pre-order below the indices in `stack`. -/
def visit (tree : Tree) : Nat → List Nat → List Nat
  | 0, _ => []
  | _, [] => []
  | limit + 1, index :: stack => index :: tree.visit limit (tree.childrenOf index ++ stack)

/-- The first `limit` nodes in pre-order. -/
def walkUpTo (tree : Tree) (limit : Nat) : List Nat :=
  if tree.nodes.isEmpty then [] else tree.visit limit [0]

def walk (tree : Tree) : List Nat :=
  tree.walkUpTo tree.nodes.size

/-- The first `limit` of a node's parent, its parent and so on; `none` if one is not there. -/
def ancestorsUpTo (tree : Tree) : Nat → Int → Option (List Int)
  | 0, index => (tree.node? index).map fun _ => []
  | limit + 1, index =>
    match tree.node? index with
    | none => none
    | some node =>
      match node.parent with
      | none => some []
      | some parent =>
        if limit = 0 then some [parent]
        else (tree.ancestorsUpTo limit parent).map (parent :: ·)

def ancestors (tree : Tree) (index : Nat) : List Int :=
  (tree.ancestorsUpTo tree.nodes.size index).getD []

/-- Whether `test` holds of a node's parent, its parent or so on, `limit` of them at most. -/
def anyAncestorUpTo (tree : Tree) (test : Int → Bool) : Nat → Int → Bool
  | 0, _ => false
  | limit + 1, index =>
    match (tree.node? index).bind Node.parent with
    | none => false
    | some parent => test parent || tree.anyAncestorUpTo test limit parent

/-- Whether `test` holds of a node that another stands below. -/
def anyAncestor (tree : Tree) (test : Int → Bool) (index : Nat) : Bool :=
  tree.anyAncestorUpTo test tree.nodes.size index

/-- Adds a node. It stays even if `parent` is not there; then it has no bytes yet, and no index to
go by. -/
def addLeaf (tree : Tree) (kind : String) (start stop : Int) (parent : Option Int) :
    Tree × Option Nat :=
  let ⟨source, nodes⟩ := tree
  let index := nodes.size
  match parent with
  | none => ({ source, nodes := nodes.push { kind, start, stop, parent } }, some index)
  | some position =>
    match Signed.index? (index + 1) position with
    | none => ({ source, nodes := nodes.push { kind, start, stop := start, parent } }, none)
    | some above =>
      let attach := fun node : Node => { node with children := node.children.push index }
      let grown := nodes.push { kind, start, stop, parent }
      ({ source, nodes := grown.modify above attach }, some index)

/-- Adds a node that has no bytes yet. -/
def add (tree : Tree) (kind : String) (start : Int) (parent : Option Int) : Tree × Option Nat :=
  tree.addLeaf kind start start parent

/-- The tree with the end of a node set, if it is there. -/
def stretch (tree : Tree) (index : Nat) (stop : Int) : Tree :=
  let ⟨source, nodes⟩ := tree
  { source, nodes := nodes.modify index fun node => { node with stop } }

def finish (tree : Tree) (index : Int) (stop : Int) : Option Tree :=
  match Signed.index? tree.nodes.size index with
  | some found => some (tree.stretch found stop)
  | none => none

/-- The tree with a node under `parent`, which is there. -/
def grow (tree : Tree) (kind : String) (start stop : Int) (parent : Nat) : Tree :=
  (tree.addLeaf kind start stop (some parent)).1

end Tree
end Whittle
