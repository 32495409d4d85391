import Whittle.Proofs.Projection

/-!
The trees that come of adding nodes under earlier ones, in whatever order (`Built`). Parents and
children agree, and a child comes after its parent (`Built.isGrown`), so that the way up from a node
ends. The walk takes each node from a stack and puts its children there; what it lists is pre-order,
said by recursion (`IsForest.preorder_eq`).
-/

namespace Whittle.Tree

open List

variable {source : Bytes} {tree : Tree} {index child limit : Nat} {stack : List Nat}

/-- What comes of some calls that add nodes, each under an earlier one or under none, and that end
nodes. -/
inductive Built (source : Bytes) : Tree → Prop where
  | empty : Built source { source }
  | add {tree : Tree} (built : Built source tree) (kind : String) (start : Int) (parent : Option Nat)
      (earlier : ∀ above ∈ parent, above < tree.nodes.size) :
      Built source (tree.add kind start (parent.map Nat.cast)).1
  | addLeaf {tree : Tree} (built : Built source tree) (kind : String) (start stop : Int)
      (parent : Option Nat) (earlier : ∀ above ∈ parent, above < tree.nodes.size) :
      Built source (tree.addLeaf kind start stop (parent.map Nat.cast)).1
  | finish {tree ended : Tree} (built : Built source tree) (index stop : Int)
      (found : tree.finish index stop = some ended) : Built source ended

/-- The children of a node are those whose parent it is, in the order in which they were added, and
all of them were added after it. -/
structure IsGrown (tree : Tree) : Prop where
  children : ∀ index, tree.childrenOf index =
    (range tree.nodes.size).filter fun child => (tree.nodeAt child).parent = some (index : Int)
  earlier : ∀ child < tree.nodes.size, ∀ parent ∈ (tree.nodeAt child).parent, 0 ≤ parent ∧ parent < child

theorem IsGrown.isForest (grown : tree.IsGrown) : tree.IsForest := by
  have links : ∀ {index child}, child ∈ tree.childrenOf index →
      child < tree.nodes.size ∧ (tree.nodeAt child).parent = some (index : Int) := by
    intro index child link
    simpa [grown.children] using link
  refine ⟨fun index _ child => links, fun index _ => ?_, fun index _ child link => ?_⟩
  · rw [grown.children]
    exact nodup_range.filter _
  · obtain ⟨inside, linked⟩ := links link
    have := grown.earlier child inside index linked
    omega

/-- A node that is added is the last child of its parent, and what else there is stays as it is. -/
theorem links_addLeaf (kind : String) (start stop : Int) {parent : Option Nat}
    (earlier : ∀ above ∈ parent, above < tree.nodes.size) :
    let grown := (tree.addLeaf kind start stop (parent.map Nat.cast)).1
    grown.nodes.size = tree.nodes.size + 1 ∧ ∀ index, (grown.childrenOf index =
        tree.childrenOf index ++ if parent.map Nat.cast = some (index : Int) then [tree.nodes.size] else []) ∧
      (grown.nodeAt index).parent =
        if index = tree.nodes.size then parent.map Nat.cast else (tree.nodeAt index).parent := by
  cases parent with
  | none =>
    refine ⟨Array.size_push _, fun index => ?_⟩
    simp only [addLeaf, Option.map_none, childrenOf, nodeAt, Array.getElem?_push]
    by_cases new : index = tree.nodes.size <;> simp [new]
  | some above =>
    have inside := earlier above rfl
    refine ⟨tree.size_grow kind start stop inside, fun index => ⟨?_, ?_⟩⟩
    · simp only [Option.map_some, Option.some_inj, Int.natCast_inj]
      exact tree.childrenOf_grow kind start stop inside index
    · have same := congrArg Node.parent (tree.bare_grow kind start stop inside index)
      rw [apply_ite Node.parent] at same
      exact same

theorem IsGrown.addLeaf (grown : tree.IsGrown) (kind : String) (start stop : Int) {parent : Option Nat}
    (earlier : ∀ above ∈ parent, above < tree.nodes.size) :
    (tree.addLeaf kind start stop (parent.map Nat.cast)).1.IsGrown := by
  obtain ⟨size, links⟩ := tree.links_addLeaf kind start stop earlier
  refine ⟨fun index => ?_, fun child inside above linked => ?_⟩
  · rw [(links index).1, size, range_succ, filter_append, grown.children]
    congr 1
    · refine filter_congr fun child member => ?_
      rw [(links child).2, if_neg (Nat.ne_of_lt (mem_range.mp member))]
    · rw [filter_singleton, (links _).2, if_pos rfl]
      simp
  · rw [(links child).2] at linked
    split at linked
    · obtain ⟨parent, known, rfl⟩ := Option.map_eq_some_iff.mp linked
      have := earlier parent known
      omega
    · exact grown.earlier child (by omega) above linked

theorem IsGrown.stretch (grown : tree.IsGrown) (index : Nat) (stop : Int) :
    (tree.stretch index stop).IsGrown := by
  have size : (tree.stretch index stop).nodes.size = tree.nodes.size := by simp [Tree.stretch]
  have links : ∀ other, (tree.stretch index stop).childrenOf other = tree.childrenOf other ∧
      ((tree.stretch index stop).nodeAt other).parent = (tree.nodeAt other).parent := by
    intro other
    simp only [childrenOf_eq, nodeAt, Tree.stretch, Array.getElem?_modify]
    split
    · cases tree.nodes[other]? <;> exact ⟨rfl, rfl⟩
    · exact ⟨rfl, rfl⟩
  refine ⟨fun other => ?_, fun child inside => ?_⟩
  · rw [(links other).1, size, grown.children]
    exact filter_congr fun child _ => by rw [(links child).2]
  · rw [(links child).2]
    exact grown.earlier child (size ▸ inside)

theorem Built.isGrown (built : Built source tree) : tree.IsGrown := by
  induction built with
  | empty => exact ⟨fun index => rfl, fun child inside => absurd inside (Nat.not_lt_zero _)⟩
  | add _ kind start parent earlier grown => exact grown.addLeaf kind start start earlier
  | addLeaf _ kind start stop parent earlier grown => exact grown.addLeaf kind start stop earlier
  | finish _ index stop found grown =>
    rw [Tree.finish] at found
    split at found
    · cases found
      exact grown.stretch _ stop
    · cases found

/-! ### The way up -/

/-- The way up from a node: it ends, each node is the parent of the one before it and has a smaller
number, the last has no parent, and the node stands below all the others and no more. -/
structure Ascends (tree : Tree) (index : Nat) (above : List Int) : Prop where
  ends : ∀ limit, tree.ancestorsUpTo limit index = some (above.take limit)
  links : ((index : Int) :: above).IsChain fun child parent =>
    (tree.node? child).bind Node.parent = some parent
  less : ((index : Int) :: above).Pairwise (· > ·)
  last : ∀ top ∈ ((index : Int) :: above).getLast?, (tree.node? top).bind Node.parent = none
  under : ∀ top : Nat, (top : Int) ∈ above ↔ ∃ depth, tree.Under top (depth + 1) index

theorem IsGrown.exists_ascends (grown : tree.IsGrown) (inside : index < tree.nodes.size) :
    ∃ above, above.length ≤ index ∧ tree.Ascends index above := by
  have linked := grown.isForest.linked
  induction index using Nat.strongRecOn with
  | ind index ih =>
    have there : tree.node? index = some (tree.nodeAt index) := by
      rw [node?_natCast, nodes_getElem? inside]
    cases parent : (tree.nodeAt index).parent with
    | none =>
      have none : (tree.node? index).bind Node.parent = none := by simp [there, parent]
      refine ⟨[], Nat.zero_le _, ?_, .singleton _, pairwise_singleton _ _, ?_, fun top => ?_⟩
      · intro limit
        cases limit <;> simp [ancestorsUpTo, there, parent]
      · rintro _ ⟨⟩
        exact none
      · refine iff_of_false not_mem_nil ?_
        rintro ⟨depth, below⟩
        cases below with
        | step _ link => cases parent.symm.trans (linked _ (lt_size_of_mem_childrenOf link) _ link).2
    | some parent' =>
      obtain ⟨positive, before⟩ := grown.earlier index inside parent' parent
      obtain ⟨above, rfl⟩ := Int.eq_ofNat_of_zero_le positive
      have there' : above < tree.nodes.size := by omega
      obtain ⟨chain, short, ascends⟩ := ih above (by omega) there'
      refine ⟨above :: chain, by simp only [length_cons]; omega, ?_, ?_, ?_, ?_, fun top => ?_⟩
      · intro limit
        cases limit with
        | zero => simp [ancestorsUpTo, there]
        | succ limit =>
          rw [ancestorsUpTo, there]
          simp only [parent, ascends.ends, Option.map_some, take_succ_cons]
          cases limit <;> simp
      · exact .cons_cons (by simp [there, parent]) ascends.links
      · refine pairwise_cons.mpr ⟨fun other member => ?_, ascends.less⟩
        rcases mem_cons.mp member with rfl | further
        · exact before
        · exact Int.lt_trans ((pairwise_cons.mp ascends.less).1 other further) before
      · rw [getLast?_cons_cons]
        exact ascends.last
      · have link : index ∈ tree.childrenOf above := by
          simpa [grown.children, inside] using parent
        rw [mem_cons, ascends.under]
        constructor
        · rintro (same | ⟨depth, below⟩)
          · cases Int.ofNat_inj.mp same
            exact ⟨0, .step .here link⟩
          · exact ⟨depth + 1, .step below link⟩
        · rintro ⟨depth, below⟩
          have below := linked.under_parent link below
          cases depth with
          | zero =>
            cases below
            exact .inl rfl
          | succ depth => exact .inr ⟨depth, below⟩

/-! ### Pre-order -/

/-- A node and all below it, in pre-order. -/
def preorder (tree : Tree) (index : Nat) : List Nat :=
  tree.visit tree.nodes.size [index]

theorem visit_append (tree : Tree) (limit : Nat) (stack more : List Nat) : tree.visit limit (stack ++ more) =
    tree.visit limit stack ++ tree.visit (limit - (tree.visit limit stack).length) more := by
  fun_induction visit tree limit stack with
  | case1 => simp [visit]
  | case2 => simp
  | case3 limit first stack ih =>
    rw [cons_append, visit, ← append_assoc, ih, length_cons, Nat.succ_sub_succ, cons_append]

theorem IsForest.visit_eq_flatMap (forest : tree.IsForest) (separate : tree.IsSeparate stack) :
    tree.visit tree.nodes.size stack = stack.flatMap tree.preorder := by
  induction stack with
  | nil => cases tree.nodes.size <;> rfl
  | cons first stack ih =>
    have inside := forall_mem_cons.mp separate.inside
    have apart := pairwise_cons.mp separate.apart
    have alone := isSeparate_singleton inside.1
    have rest : tree.IsSeparate stack := ⟨inside.2, apart.2⟩
    -- with twice as many steps there are enough for both
    have short := forest.length_visit_le alone (tree.nodes.size + tree.nodes.size)
    rw [← forest.visit_eq separate (Nat.le_add_left _ tree.nodes.size), ← singleton_append, visit_append,
      forest.visit_eq rest (by omega), ih rest, forest.visit_eq alone (Nat.le_add_left _ _)]
    rfl

theorem IsForest.preorder_eq (forest : tree.IsForest) (inside : index < tree.nodes.size) :
    tree.preorder index = index :: (tree.childrenOf index).flatMap tree.preorder := by
  rw [← forest.visit_eq_flatMap (forest.isSeparate_childrenOf inside), preorder,
    ← forest.visit_eq (isSeparate_singleton inside) (Nat.le_add_right _ 1), visit, append_nil]

/-- The walk lists the nodes whose way up reaches the root, each once and in pre-order: it ends, a node
comes first, then what is below its first child, and so on, and none comes after one that is below it. -/
structure WalksInOrder (tree : Tree) : Prop where
  ends : ∀ limit, tree.walkUpTo limit = tree.walk.take limit
  whole : 0 < tree.nodes.size → tree.walk = tree.preorder 0
  order : ∀ index < tree.nodes.size,
    tree.preorder index = index :: (tree.childrenOf index).flatMap tree.preorder
  member : ∀ index, index ∈ tree.walk ↔ index < tree.nodes.size ∧ (index = 0 ∨ 0 ∈ tree.ancestors index)
  once : tree.walk.Nodup
  down : tree.walk.Pairwise fun earlier later => (later : Int) ∉ tree.ancestors earlier

theorem IsGrown.ascends (grown : tree.IsGrown) (inside : index < tree.nodes.size) :
    tree.Ascends index (tree.ancestors index) := by
  obtain ⟨above, short, ascends⟩ := grown.exists_ascends inside
  have same : tree.ancestors index = above := by
    rw [ancestors, ascends.ends, Option.getD_some, take_of_length_le (by omega)]
  exact same ▸ ascends

theorem IsForest.pairwise_not_under (forest : tree.IsForest) :
    tree.walk.Pairwise fun earlier later => ∀ depth, ¬ tree.Under later (depth + 1) earlier := by
  refine tree.pairwise_walk (fun _ below depth above => ?_) fun index inside => ?_
  · have := forest.add_le_of_under below
    have := forest.add_le_of_under above
    omega
  · refine (forest.isSeparate_childrenOf inside).apart.imp fun apart _ _ _ _ left right depth below => ?_
    exact apart left (right.trans below) rfl

theorem IsGrown.walksInOrder (grown : tree.IsGrown) : tree.WalksInOrder := by
  have forest := grown.isForest
  rcases Nat.eq_zero_or_pos tree.nodes.size with empty | rooted
  · have walks : ∀ limit, tree.walkUpTo limit = [] := fun limit => if_pos (by simpa using empty)
    have walk : tree.walk = [] := walks _
    exact ⟨fun limit => by rw [walks, walk, take_nil], by omega, by omega, by simp [walk, empty],
      walk ▸ nodup_nil, walk ▸ .nil⟩
  · have whole := walk_eq_visit rooted
    have root := isSeparate_singleton rooted
    have member : ∀ index, index ∈ tree.walk ↔
        index < tree.nodes.size ∧ (index = 0 ∨ 0 ∈ tree.ancestors index) := by
      intro index
      rw [whole, forest.mem_visit root]
      constructor
      · rintro ⟨_, listed, depth, below⟩
        cases mem_singleton.mp listed
        have inside := below.lt_size forest.linked rooted
        refine ⟨inside, ?_⟩
        cases depth with
        | zero =>
          cases below
          exact .inl rfl
        | succ depth => exact .inr (((grown.ascends inside).under 0).mpr ⟨depth, below⟩)
      · rintro ⟨inside, rfl | reached⟩
        · exact ⟨0, mem_cons_self, 0, .here⟩
        · obtain ⟨depth, below⟩ := ((grown.ascends inside).under 0).mp reached
          exact ⟨0, mem_cons_self, _, below⟩
    refine ⟨fun limit => ?_, fun _ => whole, fun index => forest.preorder_eq, member, ?_, ?_⟩
    · have nonempty : ¬ tree.nodes.isEmpty = true := by simpa using Nat.ne_of_gt rooted
      rw [whole, walkUpTo, if_neg nonempty]
      rcases Nat.le_total limit tree.nodes.size with less | enough
      · rw [take_visit less]
      · rw [forest.visit_eq root enough,
          take_of_length_le (Nat.le_trans (forest.length_visit_le root _) enough)]
    · exact whole ▸ forest.nodup_visit root _
    · refine forest.pairwise_not_under.imp_of_mem fun visited _ apart reached => ?_
      obtain ⟨depth, below⟩ := ((grown.ascends ((member _).mp visited).1).under _).mp reached
      exact apart depth below

/-- Adding nodes under earlier ones makes a forest, and the walk is its pre-order. The children of a node
are those whose parent it is, in the order in which they were added, and come after it; the way up from
every node ends; and the walk lists in pre-order the nodes from which it reaches the root. -/
theorem Built.forms_forest {source : Bytes} {tree : Tree} (built : Built source tree) :
    tree.IsGrown ∧ (∀ index < tree.nodes.size, tree.Ascends index (tree.ancestors index)) ∧
      tree.WalksInOrder :=
  ⟨built.isGrown, fun _ inside => built.isGrown.ascends inside, built.isGrown.walksInOrder⟩

/-- Children may come late: here one of the second node after one of the first, and then a second root. -/
theorem forms_forest_crossed : ∃ tree, Built [] tree ∧ tree.walk = [0, 1, 3, 2] ∧ tree.WalksInOrder := by
  have first := (@Built.empty []).add "file" 0 none (by simp)
  have second := first.addLeaf "line" 0 1 (some 0) (by decide)
  have third := second.addLeaf "line" 2 3 (some 0) (by decide)
  have fourth := third.addLeaf "word" 0 1 (some 1) (by decide)
  have built := (fourth.add "file" 3 none (by simp)).finish 0 3 rfl
  exact ⟨_, built, by decide, built.forms_forest.2.2⟩

end Whittle.Tree
