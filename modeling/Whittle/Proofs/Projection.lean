import Whittle.Grammar.Concrete
import Whittle.Proofs.Tree

/-!
A concrete tree becomes a tree of its named nodes. A cursor goes through it, to a first child, to a
next sibling or up, with a stack of numbers beside it; that comes to planting each node with what is
below it (`addFrom_eq`). What is planted is said by places: a place tells for each step down from the
root which child it goes to, so that pre-order is the lexicographic order of places. The tree lists the
named places in this order, each under the nearest one above it (`Projects`).
-/

namespace Whittle

open List

namespace Tree

def bare (tree : Tree) (index : Nat) : Node :=
  { tree.nodeAt index with children := #[] }

variable (tree : Tree) (kind : String) (start stop : Int) {parent : Nat} (inside : parent < tree.nodes.size)

include inside

theorem grow_eq : tree.grow kind start stop parent =
    { source := tree.source
      nodes := (tree.nodes.push { kind, start, stop, parent := some (parent : Int) }).modify parent
        fun node => { node with children := node.children.push tree.nodes.size } } := by
  have there : Signed.index? (tree.nodes.size + 1) parent = some parent := by
    simp [Signed.index?]
    omega
  simp only [grow, addLeaf, there]

theorem size_grow : (tree.grow kind start stop parent).nodes.size = tree.nodes.size + 1 := by
  simp [tree.grow_eq kind start stop inside]

theorem bare_grow (index : Nat) : (tree.grow kind start stop parent).bare index =
    if index = tree.nodes.size then { kind, start, stop, parent := some (parent : Int) }
    else tree.bare index := by
  rw [bare, nodeAt, grow_eq tree kind start stop inside, Array.getElem?_modify, Array.getElem?_push]
  by_cases new : index = tree.nodes.size
  · simp [new, Nat.ne_of_lt inside]
  · by_cases above : parent = index
    · subst above
      simp [new, nodes_getElem? inside, bare]
    · simp [new, above, bare, nodeAt]

theorem childrenOf_grow (index : Nat) : (tree.grow kind start stop parent).childrenOf index =
    tree.childrenOf index ++ if parent = index then [tree.nodes.size] else [] := by
  simp only [childrenOf, grow_eq tree kind start stop inside, Array.getElem?_modify, Array.getElem?_push]
  by_cases new : index = tree.nodes.size
  · simp [new, Nat.ne_of_lt inside]
  · by_cases above : parent = index
    · subst above
      simp [new, nodes_getElem? inside]
    · simp [new, above]

end Tree

namespace Grammar.Concrete

def at? : Concrete → List Nat → Option Concrete
  | root, [] => some root
  | root, index :: place => (root.children[index]?).bind (·.at? place)

def Keeps (root : Concrete) (place : List Nat) : Prop :=
  ∃ node, root.at? place = some node ∧ (place = [] ∨ node.flags.named = true)

/-- The number of the nearest listed place that is a given one or stands above it. -/
def Near (places : List (List Nat)) (place : List Nat) (number : Nat) : Prop :=
  ∃ above, places[number]? = some above ∧ above <+: place ∧
    ∀ other ∈ places, other <+: place → other <+: above

/-- A tree has the nodes of a concrete tree at some places, in pre-order. The root spans the source and
every other node what it spans in the concrete tree, its parent is the nearest of the places above
its own, and the children of a node are those that it is the parent of. -/
structure Projects (root : Concrete) (data : Bytes) (places : List (List Nat)) (tree : Tree) : Prop where
  source : tree.source = data
  size : tree.nodes.size = places.length
  ordered : places.Pairwise (· < ·)
  node : ∀ index place, places[index]? = some place → ∃ kind start stop flags below,
    root.at? place = some (.mk kind start stop flags below) ∧
      if place = [] then tree.bare index = { kind, start := 0, stop := data.length }
      else ∃ parent : Nat, Near places place.dropLast parent ∧
        tree.bare index = { kind, start, stop, parent := some (parent : Int) }
  children : ∀ index, tree.childrenOf index =
    (range tree.nodes.size).filter fun child => (tree.bare child).parent = some (index : Int)

variable {root : Concrete} {data : Bytes} {tree : Tree} {places : List (List Nat)}
  {place other : List Nat} {index number : Nat}

/-! ### Places -/

theorem at?_append (root : Concrete) (place rest : List Nat) :
    root.at? (place ++ rest) = (root.at? place).bind (·.at? rest) := by
  induction place generalizing root with
  | nil => rfl
  | cons index place ih => simp [at?, Option.bind_assoc, ih]

theorem lt_append_iff {rest : List Nat} :
    other < place ++ rest ↔ other < place ∨ ∃ more, place ++ more = other ∧ more < rest := by
  induction place generalizing other with
  | nil => simp
  | cons index place ih =>
    cases other with
    | nil => simp
    | cons first other =>
      simp only [cons_append, cons_lt_cons_iff, ih, cons.injEq]
      grind

theorem lt_child : place < place ++ [index] :=
  lt_append_iff.mpr (.inr ⟨[], by simp⟩)

/-- Before a first child comes the node itself. -/
theorem lt_first_iff : other < place ++ [0] ↔ other < place ∨ other = place := by
  have first : ∀ more : List Nat, more < [0] ↔ more = [] := by
    intro more
    cases more <;> simp [cons_lt_cons_iff]
  simp [lt_append_iff, first, eq_comm]

/-- Before a next sibling come the node and what stands below it. -/
theorem lt_next_iff : other < place ++ [index + 1] ↔
    other < place ++ [index] ∨ place ++ [index] <+: other := by
  have next : ∀ more : List Nat, more < [index + 1] ↔ more < [index] ∨ [index] <+: more := by
    intro more
    cases more with
    | nil => simp
    | cons first rest =>
      simp only [cons_lt_cons_iff, cons_prefix_cons]
      simp
      omega
  have below : place ++ [index] <+: other ↔ ∃ more, place ++ more = other ∧ [index] <+: more :=
    ⟨fun ⟨more, same⟩ => ⟨index :: more, by simpa using same, more, rfl⟩,
      fun ⟨_, same, more, rest⟩ => ⟨more, by simp [← same, ← rest]⟩⟩
  rw [lt_append_iff, lt_append_iff, or_assoc, below, ← exists_or]
  simp only [next, ← and_or_left]

theorem not_child_prefix : ¬ place ++ [index] <+: place := by
  intro back
  have := back.length_le
  rw [length_append, length_singleton] at this
  omega

theorem Near.grow {places' : List (List Nat)} (near : Near places place number)
    (grown : places <+: places') (same : ∀ other ∈ places', other <+: place → other ∈ places) :
    Near places' place number := by
  obtain ⟨above, found, up, nearest⟩ := near
  refine ⟨above, ?_, up, fun other member before => nearest other (same other member before) before⟩
  obtain ⟨more, rfl⟩ := grown
  rwa [List.getElem?_append_left (List.getElem?_eq_some_iff.mp found).1]

theorem Projects.grow {kind : String} {start stop : Int} {flags : Flags} {below : List Concrete}
    (lists : Projects root data places tree) (later : ∀ other ∈ places, other < place ++ [index])
    (found : root.at? (place ++ [index]) = some (.mk kind start stop flags below))
    (near : Near places place number) :
    Projects root data (places ++ [place ++ [index]]) (tree.grow kind start stop number) := by
  have inside : number < tree.nodes.size := by
    obtain ⟨above, listed, -⟩ := near
    exact lists.size ▸ (List.getElem?_eq_some_iff.mp listed).1
  have bare := tree.bare_grow kind start stop inside
  have size := tree.size_grow kind start stop inside
  have apart : ∀ {outer}, ¬ place ++ [index] <+: outer →
      ∀ other ∈ places ++ [place ++ [index]], other <+: outer → other ∈ places := by
    intro outer apart other member up
    rcases mem_append.mp member with old | new
    · exact old
    · exact absurd (mem_singleton.mp new ▸ up) apart
  constructor
  · rw [tree.grow_eq kind start stop inside]
    exact lists.source
  · simp [size, lists.size]
  · exact pairwise_append.mpr ⟨lists.ordered, pairwise_singleton _ _, by simpa using later⟩
  · intro number other listed
    rw [getElem?_append] at listed
    split at listed
    · obtain ⟨kind, start, stop, flags, below, there, same⟩ := lists.node number other listed
      refine ⟨kind, start, stop, flags, below, there, ?_⟩
      rw [bare, if_neg (show number ≠ _ by rw [lists.size]; omega)]
      by_cases top : other = []
      · rwa [if_pos top] at same ⊢
      · rw [if_neg top] at same ⊢
        obtain ⟨parent, nearest, same⟩ := same
        refine ⟨parent, nearest.grow (prefix_append _ _) (apart fun back => ?_), same⟩
        exact (back.trans ( dropLast_prefix other)).le (later other (mem_of_getElem? listed))
    · obtain ⟨_, rfl⟩ : number - places.length = 0 ∧ place ++ [index] = other := by
        simpa [getElem?_singleton] using listed
      refine ⟨kind, start, stop, flags, below, found, ?_⟩
      rw [if_neg (by simp), bare, if_pos (by rw [lists.size]; omega), dropLast_concat]
      exact ⟨_, near.grow (prefix_append _ _) (apart not_child_prefix), rfl⟩
  · intro index
    rw [tree.childrenOf_grow kind start stop inside, lists.children, size, range_succ,
      filter_append]
    congr 1
    · refine filter_congr fun child member => ?_
      rw [bare, if_neg (Nat.ne_of_lt (mem_range.mp member))]
    · rw [filter_cons, bare, if_pos rfl]
      simp only [Option.some.injEq, Int.natCast_inj, decide_eq_true_eq, filter_nil]

/-! ### Planting -/

mutual

def plant (tree : Tree) (parent : Nat) : Concrete → Tree
  | .mk kind start stop flags children =>
    plantAll (if flags.named then tree.grow kind start stop parent else tree)
      (if flags.named then tree.nodes.size else parent) children

def plantAll (tree : Tree) (parent : Nat) : List Concrete → Tree
  | [] => tree
  | first :: rest => plantAll (plant tree parent first) parent rest

end

/-- Adds what is behind a cursor: its later siblings, and those of each node above it. -/
def plantBehind (tree : Tree) (cursor : Cursor) (parent : Nat) (parents : List Nat) : Tree :=
  ((cursor.later :: cursor.above.map Prod.snd).zip (parent :: parents)).foldl
    (fun tree left => plantAll tree left.2 left.1) tree

variable {cursor : Cursor} {parent : Nat} {parents : List Nat}

theorem plantBehind_eq : plantBehind tree cursor parent parents =
    match cursor.climb parent parents with
    | some (next, parent, parents) => plantBehind (plant tree parent next.node) next parent parents
    | none => tree := by
  fun_induction Cursor.climb cursor parent parents with
  | case1 parents cursor parent next sibling =>
    obtain ⟨node, _ | ⟨_, _⟩, above⟩ := cursor
    · cases sibling
    · cases sibling
      rfl
  | case2 cursor parent sibling =>
    obtain ⟨node, _ | ⟨_, _⟩, above⟩ := cursor
    · simp [plantBehind, plantAll]
    · cases sibling
  | case3 cursor _ parent parents sibling ih =>
    rw [← ih]
    obtain ⟨node, _ | ⟨_, _⟩, _ | ⟨_, _⟩⟩ := cursor
    · simp [plantBehind, plantAll, Cursor.parent]
    · rfl
    · cases sibling
    · cases sibling

theorem addFrom_eq : addFrom tree cursor parent parents =
    plantBehind (plant tree parent cursor.node) cursor parent parents := by
  have leaf : ∀ {cursor : Cursor}, cursor.firstChild? = none → cursor.node.children = [] := by
    rintro ⟨⟨_, _, _, _, _ | _⟩, _, _⟩ none
    · rfl
    · cases none
  fun_induction addFrom tree cursor parent parents with
  | case1 tree cursor parent parents kind start stop flags below node =>
    rename_i first ih
    rw [ih]
    obtain ⟨_, later, above⟩ := cursor
    cases node
    cases below with
    | nil => cases first
    | cons node below =>
      cases first
      rfl
  | case2 tree cursor parent parents kind start stop flags below node =>
    rename_i none next _ _ climbed ih
    cases (leaf none).symm.trans (congrArg children node)
    rw [ih, node, @plantBehind_eq _ cursor, climbed]
    rfl
  | case3 tree cursor parent parents kind start stop flags below node =>
    rename_i none climbed
    cases (leaf none).symm.trans (congrArg children node)
    rw [node, plantBehind_eq, climbed]
    rfl

theorem toTree_eq (data : Bytes) (root : Concrete) : root.toTree data =
    plantAll { source := data, nodes := #[{ kind := root.kind, start := 0, stop := data.length }] } 0
      root.children := by
  rw [toTree]
  obtain ⟨_, _, _, _, _ | ⟨node, below⟩⟩ := root
  · rfl
  · exact addFrom_eq

def Lists (root : Concrete) (places : List (List Nat)) (place : List Nat) : Prop :=
  ∀ other, other ∈ places ↔ root.Keeps other ∧ other < place

theorem lt_past_iff {node : Concrete} (found : root.at? place = some node)
    (past : node.children.length ≤ index) (kept : root.Keeps other) :
    other < place ++ [index] ↔ other < place ∨ place <+: other := by
  rw [lt_append_iff]
  refine or_congr_right ⟨fun ⟨more, same, _⟩ => ⟨more, same⟩, fun ⟨more, same⟩ => ⟨more, same, ?_⟩⟩
  cases more with
  | nil => simp
  | cons child rest =>
    obtain ⟨found', there, -⟩ := kept
    rw [← same, at?_append, found, Option.bind_some, Concrete.at?] at there
    obtain ⟨_, inside, -⟩ := Option.bind_eq_some_iff.mp there
    exact cons_lt_cons_iff.mpr (.inl (Nat.lt_of_lt_of_le (List.getElem?_eq_some_iff.mp inside).1 past))

/-- After its node was looked at, the places up to a given one are listed. -/
theorem Projects.visit {kind : String} {start stop : Int} {flags : Flags} {below : List Concrete}
    (projects : Projects root data places tree)
    (found : root.at? (place ++ [index]) = some (.mk kind start stop flags below))
    (near : Near places place parent) (lists : root.Lists places (place ++ [index])) :
    ∃ places', places <+: places' ∧ root.Lists places' (place ++ [index] ++ [0]) ∧
      Near places' (place ++ [index]) (if flags.named then tree.nodes.size else parent) ∧
      Projects root data places' (if flags.named then tree.grow kind start stop parent else tree) := by
  have kept : root.Keeps (place ++ [index]) ↔ flags.named = true := by
    simp [Keeps, found, Concrete.flags]
  cases named : flags.named with
  | true =>
    refine ⟨_, prefix_append _ _, fun other => ?_, ?_,
      projects.grow (fun other member => ((lists other).mp member).2) found near⟩
    · rw [mem_append, mem_singleton, lists, lt_first_iff]
      grind
    · exact ⟨place ++ [index], by simp [projects.size], prefix_refl _, fun _ _ => id⟩
  | false =>
    refine ⟨places, prefix_refl _, fun other => ?_, ?_, projects⟩
    · rw [lists, lt_first_iff]
      grind
    · obtain ⟨above, listed, up, nearest⟩ := near
      refine ⟨above, listed, up.trans (prefix_append _ _), fun other member before => ?_⟩
      rcases prefix_concat_iff.mp before with rfl | before
      · exact absurd (kept.mp ((lists _).mp member).1) (by simp [named])
      · exact nearest other member before

mutual

theorem exists_projects_plant {tree : Tree} {places : List (List Nat)} {place : List Nat}
    {index parent : Nat} : ∀ {node : Concrete}, root.at? (place ++ [index]) = some node →
    Near places place parent → root.Lists places (place ++ [index]) → Projects root data places tree →
    ∃ places', places <+: places' ∧ root.Lists places' (place ++ [index + 1]) ∧
      Projects root data places' (plant tree parent node)
  | .mk kind start stop flags below => by
    intro found near lists projects
    obtain ⟨visited, grown, lists, near, projects⟩ := projects.visit found near lists
    obtain ⟨places', more, lists, projects⟩ := exists_projects_plantAll found rfl near lists projects
    refine ⟨places', grown.trans more, fun other => ?_, projects⟩
    rw [lists, lt_next_iff]

theorem exists_projects_plantAll {tree : Tree} {places : List (List Nat)} {place : List Nat}
    {index parent : Nat} {node : Concrete} : ∀ {nodes : List Concrete}, root.at? place = some node →
    node.children.drop index = nodes → Near places place parent →
    root.Lists places (place ++ [index]) → Projects root data places tree →
    ∃ places', places <+: places' ∧
      (∀ other, other ∈ places' ↔ root.Keeps other ∧ (other < place ∨ place <+: other)) ∧
      Projects root data places' (plantAll tree parent nodes)
  | [] => by
    intro found rest near lists projects
    refine ⟨places, prefix_refl _, fun other => ?_, projects⟩
    rw [lists, and_congr_right (lt_past_iff found (drop_eq_nil_iff.mp rest))]
  | first :: nodes => by
    intro found rest near lists projects
    have there : root.at? (place ++ [index]) = some first := by
      simp [at?_append, found, Concrete.at?, ← head?_drop, rest]
    have rest : node.children.drop (index + 1) = nodes := by rw [← tail_drop, rest, tail_cons]
    obtain ⟨planted, grown, lists', projects⟩ := exists_projects_plant there near lists projects
    have near : Near planted place parent := near.grow grown fun other member up => by
      exact (lists other).mpr ⟨((lists' other).mp member).1, List.lt_of_le_of_lt up.le lt_child⟩
    obtain ⟨places', more, lists, projects⟩ := exists_projects_plantAll found rest near lists' projects
    exact ⟨places', grown.trans more, lists, projects⟩

end

theorem exists_projects_toTree (data : Bytes) (root : Concrete) :
    ∃ places, Projects root data places (root.toTree data) ∧
      ∀ place, place ∈ places ↔ root.Keeps place := by
  have top : Projects root data [[]]
      { source := data, nodes := #[{ kind := root.kind, start := 0, stop := data.length }] } := by
    obtain ⟨kind, start, stop, flags, below⟩ := root
    refine ⟨rfl, rfl, pairwise_singleton _ _, fun index place listed => ?_, fun index => ?_⟩
    · obtain ⟨rfl, rfl⟩ : index = 0 ∧ place = [] := by simpa [List.getElem?_singleton] using listed
      exact ⟨kind, start, stop, flags, below, rfl, rfl⟩
    · cases index <;> simp [Tree.childrenOf, Tree.bare, Tree.nodeAt]
  have lists : root.Lists [[]] ([] ++ [0]) := by
    have kept : root.Keeps [] := ⟨root, rfl, .inl rfl⟩
    intro other
    rw [lt_first_iff]
    simp
    grind
  have near : Near [[]] [] 0 := ⟨[], rfl, prefix_refl _, fun _ _ => id⟩
  obtain ⟨places, -, lists, projects⟩ := exists_projects_plantAll rfl drop_zero near lists top
  rw [toTree_eq]
  exact ⟨places, projects, by simpa using lists⟩

/-- The named nodes in pre-order. A concrete tree without errors, however deep and wide it is and
whichever of its nodes have names, is parsed to a tree whose nodes are exactly the root, which spans
the source, and the named nodes below it, in pre-order and with their kinds and ranges. The parent of
each is the nearest named node above it or else the root, whatever stands between them, and every
node has its children in that order too. -/
theorem parse_projects (grammar : String) (data : Bytes) (root : Concrete)
    (sound : root.flags.marked = false) :
    ∃ tree places, parse grammar data root = .ok tree ∧ Projects root data places tree ∧
      ∀ place, place ∈ places ↔ root.Keeps place := by
  obtain ⟨places, projects, all⟩ := root.exists_projects_toTree data
  exact ⟨root.toTree data, places, by simp [parse, sound], projects, all⟩

end Grammar.Concrete

namespace Sample

open Grammar

/-- A call in a group without a name, and its argument in another. -/
def grouped : Concrete :=
  .node "file" 0 4 { named := true } [
    .node "group" 0 3 {} [
      .node "call" 0 3 { named := true } [
        .node "(" 0 3 {} [.node "name" 1 2 { named := true } []]]],
    .node "name" 3 4 { named := true } []]

/-- The argument is found below the call, and what comes after the group below the root. -/
theorem parse_projects_grouped : grouped.flags.marked = false ∧ ∃ tree places,
    Concrete.parse "c" [40, 97, 41, 98] grouped = .ok tree ∧
      grouped.Projects [40, 97, 41, 98] places tree ∧ ∀ place, place ∈ places ↔ grouped.Keeps place :=
  ⟨rfl, Concrete.parse_projects "c" [40, 97, 41, 98] grouped rfl⟩

end Sample
end Whittle
