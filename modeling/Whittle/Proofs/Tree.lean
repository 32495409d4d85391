import Mathlib.Data.List.Perm.Subperm
import Mathlib.Tactic.MkIffOfInductiveProp
import Whittle.Tree

/-!
Trees as they should be: the root spans the source, the links between a node and its
children agree, and the children of a node lie in its range, in order and apart. Of two
nodes in pre-order the first then ends before the second starts, or the second stands
below it (`IsWellFormed.pairwise_walk`). That is all the passes need to know of a tree to be safe. If
the nodes were added one by one besides, pre-order comes to every node, and once
(`IsArena.mem_walk`, `IsArena.nodup_walk`); if siblings were added in turn, it is the order in which
the nodes are numbered (`IsArena.walk_eq`).
-/

namespace Whittle.Tree

open List

variable {child parent limit left right : Nat} {test : Int → Bool} {stack : List Nat}
  {relation : Nat → Nat → Prop}

def nodeAt (tree : Tree) (index : Nat) : Node :=
  (tree.nodes[index]?).getD default

/-- A tree whose nodes agree about who stands where. -/
@[mk_iff] structure IsWellFormed (tree : Tree) : Prop where
  rooted : 0 < tree.nodes.size
  top : (tree.nodeAt 0).parent = none
  start : (tree.nodeAt 0).start = 0
  stop : (tree.nodeAt 0).stop = tree.source.length
  down : ∀ index < tree.nodes.size, ∀ child ∈ tree.childrenOf index,
    child < tree.nodes.size ∧ (tree.nodeAt child).parent = some (index : Int)
  up : ∀ child < tree.nodes.size, ∀ parent ∈ (tree.nodeAt child).parent,
    0 ≤ parent ∧ parent.toNat < tree.nodes.size ∧ child ∈ tree.childrenOf parent.toNat
  nested : ∀ index < tree.nodes.size, ∀ child ∈ tree.childrenOf index,
    (tree.nodeAt index).start ≤ (tree.nodeAt child).start ∧
      (tree.nodeAt child).start ≤ (tree.nodeAt child).stop ∧
      (tree.nodeAt child).stop ≤ (tree.nodeAt index).stop
  ordered : ∀ index < tree.nodes.size, (tree.childrenOf index).Pairwise fun left right =>
    (tree.nodeAt left).stop ≤ (tree.nodeAt right).start

instance (tree : Tree) : Decidable tree.IsWellFormed :=
  decidable_of_iff _ (isWellFormed_iff tree).symm

/-- A node stands so many links below another. -/
inductive Under (tree : Tree) (top : Nat) : Nat → Nat → Prop where
  | here : Under tree top 0 top
  | step {depth parent child : Nat} (above : Under tree top depth parent)
      (link : child ∈ tree.childrenOf parent) : Under tree top (depth + 1) child

variable {tree : Tree} {top middle index : Nat} {depth further : Nat}

theorem lt_size_of_mem_childrenOf (link : child ∈ tree.childrenOf index) :
    index < tree.nodes.size := by
  rw [childrenOf] at link
  split at link
  · next found => exact (Array.getElem?_eq_some_iff.mp found).1
  · cases link

theorem node?_natCast (tree : Tree) (index : Nat) : tree.node? index = tree.nodes[index]? := by
  have positive : ¬ (index : Int) < 0 := by omega
  rw [node?, Signed.index?]
  by_cases inside : index < tree.nodes.size <;> simp [positive, inside]

theorem nodes_getElem? (inside : index < tree.nodes.size) :
    tree.nodes[index]? = some (tree.nodeAt index) := by
  simp [nodeAt, inside]

theorem childrenOf_eq (tree : Tree) (index : Nat) :
    tree.childrenOf index = (tree.nodeAt index).children.toList := by
  rw [childrenOf, nodeAt]
  cases tree.nodes[index]? <;> rfl

/-- The children of a node are there, and know it for their parent. -/
def IsLinked (tree : Tree) : Prop :=
  ∀ index < tree.nodes.size, ∀ child ∈ tree.childrenOf index,
    child < tree.nodes.size ∧ (tree.nodeAt child).parent = some (index : Int)

theorem IsLinked.under_parent (linked : tree.IsLinked)
    (link : child ∈ tree.childrenOf parent) (below : tree.Under top (depth + 1) child) :
    tree.Under top depth parent := by
  cases below with
  | step above link' =>
    have here := (linked _ (lt_size_of_mem_childrenOf link) _ link).2
    have here' := (linked _ (lt_size_of_mem_childrenOf link') _ link').2
    cases Int.ofNat_inj.mp (Option.some.inj (here'.symm.trans here))
    exact above

namespace Under

theorem trans (above : tree.Under top depth middle) (below : tree.Under middle further index) :
    tree.Under top (depth + further) index := by
  induction below with
  | here => exact above
  | step _ link ih => exact .step ih link

theorem lt_size (linked : tree.IsLinked) (inside : top < tree.nodes.size)
    (below : tree.Under top depth index) : index < tree.nodes.size := by
  cases below with
  | here => exact inside
  | step _ link => exact (linked _ (lt_size_of_mem_childrenOf link) _ link).1

variable (wellFormed : tree.IsWellFormed)

include wellFormed

theorem range (below : tree.Under top depth index) :
    (tree.nodeAt top).start ≤ (tree.nodeAt index).start ∧
      (tree.nodeAt index).stop ≤ (tree.nodeAt top).stop := by
  induction below with
  | here => exact ⟨Int.le_refl _, Int.le_refl _⟩
  | step _ link ih =>
    have inside := wellFormed.nested _ (lt_size_of_mem_childrenOf link) _ link
    exact ⟨Int.le_trans ih.1 inside.1, Int.le_trans inside.2.2 ih.2⟩

theorem range_of_root (below : tree.Under 0 depth index) :
    0 ≤ (tree.nodeAt index).start ∧ (tree.nodeAt index).start ≤ (tree.nodeAt index).stop ∧
      (tree.nodeAt index).stop ≤ tree.source.length := by
  have inside := below.range wellFormed
  rw [wellFormed.start, wellFormed.stop] at inside
  refine ⟨inside.1, ?_, inside.2⟩
  cases below with
  | here =>
    rw [wellFormed.start, wellFormed.stop]
    exact Int.natCast_nonneg _
  | step _ link => exact (wellFormed.nested _ (lt_size_of_mem_childrenOf link) _ link).2.1

/-- Between the root and a node below it stands every node that this node stands below. -/
theorem split (whole : tree.Under 0 depth index) (below : tree.Under middle further index) :
    ∃ rest, tree.Under 0 rest middle ∧ depth = rest + further := by
  induction below generalizing depth with
  | here => exact ⟨depth, whole, rfl⟩
  | step _ link ih =>
    cases depth with
    | zero =>
      cases whole
      cases wellFormed.top.symm.trans (wellFormed.down _ (lt_size_of_mem_childrenOf link) _ link).2
    | succ depth =>
      obtain ⟨rest, found, rfl⟩ := ih (IsLinked.under_parent wellFormed.down link whole)
      exact ⟨rest, found, rfl⟩

/-- Asking the nodes above one finds each that is near enough. -/
theorem anyAncestorUpTo (passes : test top = true)
    (below : tree.Under top (depth + 1) index) (near : depth < limit) :
    tree.anyAncestorUpTo test limit index = true := by
  generalize counted : depth + 1 = links at below
  induction below generalizing depth limit with
  | here => cases counted
  | @step rest parent child above link ih =>
    cases counted
    obtain ⟨limit, rfl⟩ := Nat.exists_eq_add_one_of_ne_zero (Nat.ne_zero_of_lt near)
    obtain ⟨inside, linked⟩ := wellFormed.down _ (lt_size_of_mem_childrenOf link) _ link
    rw [anyAncestorUpTo, node?_natCast, nodes_getElem? inside, Option.bind_some, linked]
    simp only [Bool.or_eq_true]
    cases above with
    | here => exact .inl passes
    | step above link => exact .inr (ih (by omega) rfl)

end Under

theorem IsWellFormed.under_of_anyAncestorUpTo (wellFormed : tree.IsWellFormed)
    (inside : index < tree.nodes.size) (found : tree.anyAncestorUpTo test limit index = true) :
    ∃ top depth : Nat, test top = true ∧ tree.Under top (depth + 1) index := by
  induction limit generalizing index with
  | zero => cases found
  | succ limit ih =>
    rw [anyAncestorUpTo, node?_natCast, nodes_getElem? inside, Option.bind_some] at found
    split at found
    · cases found
    · next parent linked =>
      obtain ⟨positive, there, link⟩ := wellFormed.up index inside parent linked
      obtain ⟨parent, rfl⟩ := Int.eq_ofNat_of_zero_le positive
      rw [Int.toNat_natCast] at there link
      rcases Bool.or_eq_true_iff.mp found with passes | further
      · exact ⟨parent, 0, passes, .step .here link⟩
      · obtain ⟨top, depth, passes, above⟩ := ih there further
        exact ⟨top, depth + 1, passes, .step above link⟩

/-! ### Pre-order -/

theorem exists_under_of_mem_visit (visited : index ∈ tree.visit limit stack) :
    ∃ top ∈ stack, ∃ depth < limit, tree.Under top depth index := by
  fun_induction visit tree limit stack with
  | case1 => cases visited
  | case2 => cases visited
  | case3 limit first stack ih =>
    rcases mem_cons.mp visited with rfl | later
    · exact ⟨index, mem_cons_self, 0, Nat.succ_pos _, .here⟩
    · obtain ⟨top, member, depth, near, below⟩ := ih later
      rcases mem_append.mp member with child | rest
      · exact ⟨first, mem_cons_self, 1 + depth, by omega, .trans (.step .here child) below⟩
      · exact ⟨top, mem_cons_of_mem _ rest, depth, by omega, below⟩

/-- A relation holds from all at or below one node to all at or below another. -/
def Apart (tree : Tree) (relation : Nat → Nat → Prop) (left right : Nat) : Prop :=
  ∀ ⦃depth further index other⦄, tree.Under left depth index → tree.Under right further other →
    relation index other

theorem pairwise_visit
    (down : ∀ {top depth index}, depth < limit → tree.Under top (depth + 1) index → relation top index)
    (siblings : ∀ index < tree.nodes.size, (tree.childrenOf index).Pairwise (tree.Apart relation))
    (apart : stack.Pairwise (tree.Apart relation)) : (tree.visit limit stack).Pairwise relation := by
  fun_induction visit tree limit stack with
  | case1 => exact .nil
  | case2 => exact .nil
  | case3 limit first stack ih =>
    obtain ⟨before, apart⟩ := pairwise_cons.mp apart
    refine pairwise_cons.mpr ⟨fun later visited => ?_, ih (fun near => down (by omega)) ?_⟩
    · obtain ⟨top, member, depth, near, below⟩ := exists_under_of_mem_visit visited
      rcases mem_append.mp member with child | rest
      · have below := Under.trans (.step .here child) below
        rw [Nat.zero_add, Nat.add_comm] at below
        exact down (by omega) below
      · exact before top rest .here below
    · refine pairwise_append.mpr ⟨?_, apart, fun child link other member _ _ _ _ below => ?_⟩
      · by_cases inside : first < tree.nodes.size
        · exact siblings first inside
        · rw [childrenOf, Array.getElem?_eq_none (by omega)]
          exact .nil
      · exact before other member (.trans (.step .here link) below)

/-- Every node of the walk stands below the root. -/
theorem exists_under_of_mem_walk (visited : index ∈ tree.walk) :
    ∃ depth, tree.Under 0 depth index := by
  rw [walk, walkUpTo] at visited
  split at visited
  · cases visited
  · obtain ⟨top, member, depth, -, below⟩ := exists_under_of_mem_visit visited
    cases mem_singleton.mp member
    exact ⟨depth, below⟩

theorem IsWellFormed.lt_size_of_mem_walk (wellFormed : tree.IsWellFormed)
    (visited : index ∈ tree.walk) : index < tree.nodes.size := by
  obtain ⟨depth, below⟩ := exists_under_of_mem_walk visited
  exact below.lt_size wellFormed.down wellFormed.rooted

theorem pairwise_walk
    (down : ∀ {top depth index}, depth < tree.nodes.size → tree.Under top (depth + 1) index →
      relation top index)
    (siblings : ∀ index < tree.nodes.size, (tree.childrenOf index).Pairwise (tree.Apart relation)) :
    tree.walk.Pairwise relation := by
  rw [walk, walkUpTo]
  split
  · exact .nil
  · exact pairwise_visit down siblings (pairwise_singleton _ _)

/-- A node that is visited after another stands below it or starts after its end. -/
theorem IsWellFormed.pairwise_walk (wellFormed : tree.IsWellFormed) :
    tree.walk.Pairwise fun left right =>
      (∃ depth < tree.nodes.size, tree.Under left (depth + 1) right) ∨
        (tree.nodeAt left).stop ≤ (tree.nodeAt right).start := by
  refine tree.pairwise_walk (fun near below => .inl ⟨_, near, below⟩) fun index inside => ?_
  refine (wellFormed.ordered index inside).imp fun apart _ _ _ _ left right => .inr ?_
  have low := (left.range wellFormed).2
  have high := (right.range wellFormed).1
  omega

/-! ### Every node once -/

/-- A tree to which the nodes were added one by one, each but the first under an earlier one. -/
@[mk_iff] structure IsArena (tree : Tree) : Prop extends IsWellFormed tree where
  lone : ∀ index < tree.nodes.size, (tree.nodeAt index).parent = none → index = 0
  once : ∀ index < tree.nodes.size, (tree.childrenOf index).Nodup
  later : ∀ index < tree.nodes.size, ∀ child ∈ tree.childrenOf index, index < child

instance (tree : Tree) : Decidable tree.IsArena :=
  decidable_of_iff _ (isArena_iff tree).symm

/-- Some trees side by side, whatever their ranges are: children come after their parents. -/
structure IsForest (tree : Tree) : Prop where
  linked : tree.IsLinked
  once : ∀ index < tree.nodes.size, (tree.childrenOf index).Nodup
  later : ∀ index < tree.nodes.size, ∀ child ∈ tree.childrenOf index, index < child

theorem IsArena.isForest (arena : tree.IsArena) : tree.IsForest :=
  ⟨arena.down, arena.once, arena.later⟩

theorem Under.exists_child (below : tree.Under top (depth + 1) index) :
    ∃ child ∈ tree.childrenOf top, tree.Under child depth index := by
  generalize counted : depth + 1 = links at below
  induction below generalizing depth with
  | here => cases counted
  | @step rest parent child above link ih =>
    cases counted
    cases above with
    | here => exact ⟨child, link, .here⟩
    | step above link' =>
      obtain ⟨first, found, below⟩ := ih rfl
      exact ⟨first, found, .step below link⟩

/-- A visit comes to all that stands below what it began with, unless it is cut short. -/
theorem mem_visit_of_under (short : (tree.visit limit stack).length ≠ limit) (member : top ∈ stack)
    (below : tree.Under top depth index) : index ∈ tree.visit limit stack := by
  fun_induction visit tree limit stack generalizing top depth with
  | case1 => exact absurd rfl short
  | case2 => cases member
  | case3 limit first stack ih =>
    have rest : ∀ {top depth}, top ∈ tree.childrenOf first ++ stack → tree.Under top depth index →
        index ∈ first :: tree.visit limit (tree.childrenOf first ++ stack) := fun member below =>
      mem_cons_of_mem _ (ih (by simpa using short) member below)
    rcases mem_cons.mp member with rfl | behind
    · cases depth with
      | zero =>
        cases below
        exact mem_cons_self
      | succ depth =>
        obtain ⟨child, link, below⟩ := below.exists_child
        exact rest (mem_append_left _ link) below
    · exact rest (mem_append_right _ behind) below

theorem take_visit {less : Nat} (bounded : less ≤ limit) (stack : List Nat) :
    (tree.visit limit stack).take less = tree.visit less stack := by
  fun_induction visit tree limit stack generalizing less with
  | case1 => rw [Nat.le_zero.mp bounded, take_zero, visit]
  | case2 => cases less <;> rfl
  | case3 limit first stack ih =>
    cases less with
    | zero => rfl
    | succ less => rw [take_succ_cons, ih (Nat.le_of_succ_le_succ bounded), visit]

/-- Nodes that are there, and below two of which no node stands. -/
structure IsSeparate (tree : Tree) (stack : List Nat) : Prop where
  inside : ∀ top ∈ stack, top < tree.nodes.size
  apart : stack.Pairwise (tree.Apart (· ≠ ·))

theorem isSeparate_singleton (inside : top < tree.nodes.size) : tree.IsSeparate [top] :=
  ⟨forall_mem_singleton.mpr inside, pairwise_singleton _ _⟩

namespace IsForest

variable (forest : tree.IsForest)

include forest

theorem add_le_of_under (below : tree.Under top depth index) : top + depth ≤ index := by
  induction below with
  | here => exact Nat.le_refl _
  | step _ link ih =>
    have := forest.later _ (lt_size_of_mem_childrenOf link) _ link
    omega

section

variable (link : left ∈ tree.childrenOf parent) (link' : right ∈ tree.childrenOf parent)

include link link'

/-- A child of a node that stands below another of its children would stand above itself. -/
theorem not_under_sibling : ¬ tree.Under left (depth + 1) right := by
  intro below
  have := forest.add_le_of_under (forest.linked.under_parent link' below)
  have := forest.later _ (lt_size_of_mem_childrenOf link) _ link
  omega

/-- No node stands below two children of another. -/
theorem apart_ne (other : left ≠ right) : tree.Apart (· ≠ ·) left right := by
  rintro depth further index _ below below' rfl
  induction below generalizing further with
  | here =>
    cases further with
    | zero =>
      cases below'
      exact other rfl
    | succ further => exact forest.not_under_sibling link' link below'
  | step above linked ih =>
    cases further with
    | zero =>
      cases below'
      exact forest.not_under_sibling link link' (.step above linked)
    | succ further => exact ih (forest.linked.under_parent linked below')

end

theorem isSeparate_childrenOf (inside : index < tree.nodes.size) :
    tree.IsSeparate (tree.childrenOf index) :=
  ⟨fun _ link => (forest.linked index inside _ link).1, (forest.once index inside).imp_of_mem
    fun link link' other => forest.apart_ne link link' other⟩

variable (separate : tree.IsSeparate stack)

include separate

theorem nodup_visit (limit : Nat) : (tree.visit limit stack).Nodup := by
  refine pairwise_visit (fun _ below => ?_) (fun index inside => ?_) separate.apart
  · have := forest.add_le_of_under below
    omega
  · exact (forest.isSeparate_childrenOf inside).apart

theorem length_visit_le (limit : Nat) : (tree.visit limit stack).length ≤ tree.nodes.size := by
  have all := List.Nodup.subperm (forest.nodup_visit separate limit) fun index visited => by
    obtain ⟨top, member, depth, -, below⟩ := exists_under_of_mem_visit visited
    exact mem_range.mpr (below.lt_size forest.linked (separate.inside top member))
  simpa using all.length_le

/-- There are no more steps to take than there are nodes. -/
theorem visit_eq (enough : tree.nodes.size ≤ limit) :
    tree.visit limit stack = tree.visit tree.nodes.size stack := by
  rw [← take_visit enough, take_of_length_le (forest.length_visit_le separate limit)]

theorem mem_visit : index ∈ tree.visit tree.nodes.size stack ↔
    ∃ top ∈ stack, ∃ depth, tree.Under top depth index := by
  constructor
  · intro visited
    obtain ⟨top, member, depth, -, below⟩ := exists_under_of_mem_visit visited
    exact ⟨top, member, depth, below⟩
  · rintro ⟨top, member, depth, below⟩
    have short := forest.length_visit_le separate (tree.nodes.size + 1)
    rw [← forest.visit_eq separate (Nat.le_add_right _ 1)]
    exact mem_visit_of_under (by omega) member below

end IsForest

theorem walk_eq_visit (inside : index < tree.nodes.size) : tree.walk = tree.visit tree.nodes.size [0] := by
  have some : tree.nodes.isEmpty = false := by simpa using fun none => Nat.not_lt_zero _ (none ▸ inside)
  rw [walk, walkUpTo, some]
  rfl

namespace IsArena

variable (arena : tree.IsArena)

include arena

theorem nodup_walk : tree.walk.Nodup := by
  rw [walk_eq_visit arena.rooted]
  exact arena.isForest.nodup_visit (isSeparate_singleton arena.rooted) _

theorem exists_under_root (inside : index < tree.nodes.size) : ∃ depth, tree.Under 0 depth index := by
  induction index using Nat.strongRecOn with
  | ind index ih =>
    cases linked : (tree.nodeAt index).parent with
    | none =>
      cases arena.lone index inside linked
      exact ⟨0, .here⟩
    | some parent =>
      obtain ⟨-, there, link⟩ := arena.up index inside parent linked
      obtain ⟨depth, below⟩ := ih _ (arena.later _ there _ link) there
      exact ⟨depth + 1, .step below link⟩

theorem mem_walk (inside : index < tree.nodes.size) : index ∈ tree.walk := by
  rw [walk_eq_visit inside, arena.isForest.mem_visit (isSeparate_singleton arena.rooted)]
  exact ⟨0, mem_cons_self, arena.exists_under_root inside⟩

/-- The nodes are numbered in pre-order, if all below a node comes before its next sibling. -/
theorem walk_eq (siblings : ∀ index < tree.nodes.size,
    (tree.childrenOf index).Pairwise (tree.Apart (· < ·))) :
    tree.walk = range tree.nodes.size := by
  have ordered : tree.walk.Pairwise (· < ·) := by
    refine tree.pairwise_walk (fun _ below => ?_) siblings
    have := arena.isForest.add_le_of_under below
    omega
  have same : tree.walk.Perm (range tree.nodes.size) := by
    rw [perm_ext_iff_of_nodup arena.nodup_walk nodup_range]
    exact fun index => ⟨fun visited => mem_range.mpr (arena.lt_size_of_mem_walk visited),
      fun inside => arena.mem_walk (mem_range.mp inside)⟩
  exact same.eq_of_pairwise (fun _ _ _ _ less more => absurd less (Nat.lt_asymm more)) ordered
    pairwise_lt_range

end IsArena
end Whittle.Tree
