import Whittle.Failure
import Whittle.Tree

/-!
Concrete syntax trees, which hold every token, and their projection to the named
nodes. A tree with an error or a missing token is no parse; the offset of the
first such node is reported.
-/

namespace Whittle.Grammar

/-- What a parser says of a node; it is marked if an error or a missing token stands at it or below. -/
structure Concrete.Flags where
  named : Bool := false
  error : Bool := false
  missing : Bool := false
  marked : Bool := false
deriving DecidableEq, Repr, Inhabited

/-- A node of a concrete syntax tree. -/
inductive Concrete where
  | mk (kind : String) (start stop : Int) (flags : Concrete.Flags) (children : List Concrete)
deriving Inhabited

namespace Concrete

def kind : Concrete → String
  | .mk kind _ _ _ _ => kind

def children : Concrete → List Concrete
  | .mk _ _ _ _ children => children

def flags : Concrete → Flags
  | .mk _ _ _ flags _ => flags

/-- A node as a parser makes it: it is marked if it is flawed, or a child is marked. -/
def node (kind : String) (start stop : Int) (flags : Flags) (children : List Concrete) : Concrete :=
  .mk kind start stop
    { flags with
      marked := flags.marked || flags.error || flags.missing || children.any (·.flags.marked) }
    children

/-- Puts nodes on a stack, whose top comes first, the last of them before the others. -/
def pushAll (stack nodes : List Concrete) : List Concrete :=
  nodes.reverse.foldl (fun stack node => node :: stack) stack

theorem pushAll_eq (stack nodes : List Concrete) : pushAll stack nodes = nodes ++ stack := by
  simp [pushAll]

theorem sizeOf_append (nodes more : List Concrete) :
    sizeOf (nodes ++ more) + 1 = sizeOf nodes + sizeOf more := by
  induction nodes with
  | nil => simp +arith
  | cons node nodes ih => simp; omega

/-- The offset of the first error or missing node, searched for with a stack of nodes. The search goes
on below a node only if it is marked. -/
def firstFlaw : List Concrete → Option Int
  | [] => none
  | .mk _ start _ flags children :: stack =>
    if flags.error || flags.missing then some start
    else if flags.marked then firstFlaw (pushAll stack children)
    else firstFlaw stack
termination_by stack => sizeOf stack
decreasing_by
  · have := sizeOf_append children stack
    simp only [pushAll_eq, List.cons.sizeOf_spec, mk.sizeOf_spec]
    omega
  · simp only [List.cons.sizeOf_spec, mk.sizeOf_spec]
    omega

/-- A place in a concrete tree: a node, its later siblings, and what stands above, each node with its
own later siblings and the nearest first. -/
structure Cursor where
  node : Concrete
  later : List Concrete := []
  above : List (Concrete × List Concrete) := []

namespace Cursor

def firstChild? (cursor : Cursor) : Option Cursor :=
  match cursor.node.children with
  | [] => none
  | node :: later => some { node, later, above := (cursor.node, cursor.later) :: cursor.above }

def nextSibling? (cursor : Cursor) : Option Cursor :=
  match cursor.later with
  | [] => none
  | node :: later => some { cursor with node, later }

/-- The parent of the node; from the top there is no way up. -/
def parent (cursor : Cursor) : Cursor :=
  match cursor.above with
  | [] => cursor
  | (node, later) :: above => { node, later, above }

/-- The next place that is not below this one, and what is left of the parents that are told for this
place and those above it; `none` if there is no such place below the last of them. -/
def climb (cursor : Cursor) (parent : Nat) (parents : List Nat) : Option (Cursor × Nat × List Nat) :=
  match cursor.nextSibling?, parents with
  | some next, _ => some (next, parent, parents)
  | none, [] => none
  | none, parent :: parents => cursor.parent.climb parent parents

/-- Less at each place of a walk than at the place before. -/
noncomputable def ahead (cursor : Cursor) : Nat :=
  sizeOf cursor.later + cursor.above.foldr (fun place rest => sizeOf place.2 + rest) 0

theorem ahead_of_climb {cursor next : Cursor} {parent : Nat} {parents : List Nat} {left : Nat × List Nat}
    (climbed : cursor.climb parent parents = some (next, left)) :
    sizeOf next.node + next.ahead < cursor.ahead := by
  fun_induction climb cursor parent parents with
  | case1 _ cursor _ next found =>
    obtain ⟨node, later, above⟩ := cursor
    cases climbed
    cases later with
    | nil => cases found
    | cons _ _ =>
      cases found
      simp [ahead]
      omega
  | case2 => cases climbed
  | case3 cursor _ _ _ _ ih =>
    obtain ⟨node, later, above⟩ := cursor
    have less := ih climbed
    cases above with
    | nil => exact less
    | cons place above =>
      simp only [ahead, Cursor.parent, List.foldr_cons] at less ⊢
      omega

theorem ahead_of_firstChild? {cursor below : Cursor} (found : cursor.firstChild? = some below) :
    sizeOf below.node + below.ahead < sizeOf cursor.node + cursor.ahead := by
  obtain ⟨⟨kind, start, stop, flags, children⟩, later, above⟩ := cursor
  cases children with
  | nil => cases found
  | cons _ _ =>
    cases found
    simp [ahead]
    omega

end Cursor

/-- Adds the named nodes from a cursor on: the one that it is at under `parent`, and for each step up
those that follow under the next of `parents`. -/
def addFrom (tree : Tree) (cursor : Cursor) (parent : Nat) (parents : List Nat) : Tree :=
  let .mk kind start stop flags _ := cursor.node
  let index := if flags.named then tree.nodes.size else parent
  let grown := if flags.named then tree.grow kind start stop parent else tree
  match _ : cursor.firstChild? with
  | some below => addFrom grown below index (parent :: parents)
  | none =>
    match _ : cursor.climb parent parents with
    | some (next, parent, parents) => addFrom grown next parent parents
    | none => grown
termination_by sizeOf cursor.node + cursor.ahead
decreasing_by
  · exact Cursor.ahead_of_firstChild? ‹_›
  · have := Cursor.ahead_of_climb ‹_›
    omega

/-- The tree of the named nodes; the root spans the whole file. -/
def toTree (data : Bytes) (root : Concrete) : Tree :=
  let top : Tree :=
    { source := data, nodes := #[{ kind := root.kind, start := 0, stop := data.length }] }
  match Cursor.firstChild? { node := root } with
  | some below => addFrom top below 0 []
  | none => top

/-- The written form of an offset that may be unknown. -/
def offsetText : Option Int → String
  | some offset => toString offset
  | none => "None"

def parse (grammar : String) (data : Bytes) (root : Concrete) : Except Failure Tree :=
  if root.flags.marked then
    let offset := firstFlaw [root]
    .error (.unparsed (grammar ++ " syntax error at byte " ++ offsetText offset) offset)
  else
    .ok (root.toTree data)

end Concrete
end Whittle.Grammar
