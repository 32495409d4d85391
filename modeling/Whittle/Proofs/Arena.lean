import Whittle.Grammar
import Whittle.Proofs.Asking
import Whittle.Proofs.Nested

/-!
The trees that grammars make. A concrete tree whose ranges are nested is projected to an arena: its
nodes agree about who stands where, and they are numbered in pre-order (`Concrete.isArena_toTree`).
Lines and statements come to the same: what is made of them is what a concrete tree of them, their
outline, is projected to, since a node that is opened, filled and closed might as well have been added
with its whole range (`Concrete.stretch_plantAll_grow`).
-/

namespace Whittle

open List

namespace Grammar.Concrete

variable {root : Concrete} {data : Bytes} {tree : Tree} {places : List (List Nat)}
  {place other : List Nat} {index child number : Nat}

/-- What is at or below a place comes before what is at or below a later one beside it. -/
theorem append_lt_append (less : place < other) (beside : ¬ place <+: other) (more further : List Nat) :
    place ++ more < other ++ further := by
  induction place generalizing other with
  | nil => exact absurd nil_prefix beside
  | cons first place ih =>
    cases other with
    | nil => exact absurd less (not_lt_nil _)
    | cons first' other =>
      rw [cons_prefix_cons] at beside
      rw [cons_append, cons_append, cons_lt_cons_iff]
      rcases cons_lt_cons_iff.mp less with before | ⟨rfl, later⟩
      · exact .inl before
      · exact .inr ⟨rfl, ih later fun up => beside ⟨rfl, up⟩⟩

namespace Projects

variable (projects : Projects root data places tree)

include projects

section

variable (listed : places[index]? = some place) (listed' : places[number]? = some other)

include listed listed'

theorem lt_of_lt (less : index < number) : place < other := by
  obtain ⟨_, rfl⟩ := List.getElem?_eq_some_iff.mp listed
  obtain ⟨_, rfl⟩ := List.getElem?_eq_some_iff.mp listed'
  exact pairwise_iff_getElem.mp projects.ordered index number _ _ less

theorem number_lt_of_lt (less : place < other) : index < number := by
  rcases Nat.lt_trichotomy index number with earlier | rfl | later
  · exact earlier
  · cases listed.symm.trans listed'
    exact absurd less (List.lt_irrefl _)
  · exact absurd less (List.lt_asymm (projects.lt_of_lt listed' listed later))

end

theorem exists_place (inside : index < tree.nodes.size) : ∃ place, places[index]? = some place :=
  ⟨_, getElem?_eq_getElem (projects.size ▸ inside)⟩

theorem pairwise_lt (index : Nat) : (tree.childrenOf index).Pairwise (· < ·) :=
  projects.children index ▸ pairwise_lt_range.filter _

theorem mem_childrenOf : child ∈ tree.childrenOf index ↔
    child < tree.nodes.size ∧ (tree.nodeAt child).parent = some (index : Int) := by
  rw [projects.children, mem_filter, mem_range, decide_eq_true_eq]
  rfl

theorem nodeAt_top (listed : places[index]? = some []) : (tree.nodeAt index).start = 0 ∧
    (tree.nodeAt index).stop = data.length ∧ (tree.nodeAt index).parent = none := by
  obtain ⟨_, _, _, _, _, -, same⟩ := projects.node index [] listed
  rw [if_pos rfl] at same
  exact ⟨congrArg Node.start same, congrArg Node.stop same, congrArg Node.parent same⟩

theorem nodeAt_deep (listed : places[index]? = some place) (deep : place ≠ []) : ∃ node, ∃ parent : Nat,
    root.at? place = some node ∧ (tree.nodeAt index).start = node.start ∧
      (tree.nodeAt index).stop = node.stop ∧ (tree.nodeAt index).parent = some (parent : Int) ∧
      Near places place.dropLast parent := by
  obtain ⟨_, _, _, _, _, found, same⟩ := projects.node index place listed
  rw [if_neg deep] at same
  obtain ⟨parent, near, same⟩ := same
  exact ⟨_, parent, found, congrArg Node.start same, congrArg Node.stop same, congrArg Node.parent same, near⟩

theorem near_of_link (link : child ∈ tree.childrenOf index) : ∃ place node, places[child]? = some place ∧
    place ≠ [] ∧ root.at? place = some node ∧ (tree.nodeAt child).start = node.start ∧
      (tree.nodeAt child).stop = node.stop ∧ Near places place.dropLast index := by
  obtain ⟨inside, linked⟩ := projects.mem_childrenOf.mp link
  obtain ⟨place, listed⟩ := projects.exists_place inside
  by_cases deep : place = []
  · cases deep
    cases linked.symm.trans (projects.nodeAt_top listed).2.2
  · obtain ⟨node, parent, found, start, stop, above, near⟩ := projects.nodeAt_deep listed deep
    cases Int.ofNat_inj.mp (Option.some.inj (linked.symm.trans above))
    exact ⟨place, node, listed, deep, found, start, stop, near⟩

theorem isPrefix_of_under {top depth : Nat} (below : tree.Under top depth index)
    (listed : places[top]? = some place) : ∃ other, places[index]? = some other ∧ place <+: other := by
  induction below with
  | here => exact ⟨place, listed, prefix_refl _⟩
  | step _ link ih =>
    obtain ⟨above, found, up⟩ := ih
    obtain ⟨other, _, listed, -, -, -, -, outer, found', up', -⟩ := projects.near_of_link link
    cases found.symm.trans found'
    exact ⟨other, listed, up.trans (up'.trans ( dropLast_prefix _))⟩

/-- Of two children of a node the one that comes first is at an earlier place beside the other. -/
theorem beside_of_link {left right : Nat} {low high : List Nat} (less : left < right)
    (link : left ∈ tree.childrenOf index) (link' : right ∈ tree.childrenOf index)
    (listed : places[left]? = some low) (listed' : places[right]? = some high) :
    low < high ∧ ¬ low <+: high := by
  refine ⟨projects.lt_of_lt listed listed' less, fun up => ?_⟩
  obtain ⟨_, _, found, deep, -, -, -, above, top, up', -⟩ := projects.near_of_link link
  obtain ⟨_, _, found', -, -, -, -, _, top', -, nearest⟩ := projects.near_of_link link'
  cases listed.symm.trans found
  cases listed'.symm.trans found'
  cases top.symm.trans top'
  -- the first would be nearer to the other than their parent
  have inner : low <+: high.dropLast := by
    obtain ⟨more, rfl⟩ := up
    have some : more ≠ [] := by
      rintro rfl
      exact absurd (projects.lt_of_lt listed listed' less) (by simp)
    rw [dropLast_append_of_ne_nil some]
    exact prefix_append _ _
  have := (nearest low (mem_of_getElem? listed) inner).length_le
  have := up'.length_le
  have := length_pos_of_ne_nil deep
  rw [length_dropLast] at *
  omega

/-- A tree whose ranges are nested and in the source is projected to a tree that is well formed. -/
theorem isArena (all : ∀ place, place ∈ places ↔ root.Keeps place) (nested : root.IsNested)
    (first : 0 ≤ root.start) (last : root.stop ≤ data.length) : tree.IsArena := by
  have top : places[0]? = some [] := by
    obtain ⟨index, listed⟩ := mem_iff_getElem?.mp ((all []).mpr ⟨root, rfl, .inl rfl⟩)
    cases index with
    | zero => exact listed
    | succ index =>
      have inside := (List.getElem?_eq_some_iff.mp listed).1
      exact absurd (projects.lt_of_lt (getElem?_eq_getElem (by omega)) listed index.succ_pos)
        (not_lt_nil _)
  obtain ⟨start, stop, parent⟩ := projects.nodeAt_top top
  have position : ∀ {index place}, places[index]? = some place → ∃ node, root.at? place = some node ∧
      (tree.nodeAt index).start ≤ node.start ∧ node.stop ≤ (tree.nodeAt index).stop := by
    intro index place listed
    by_cases deep : place = []
    · cases deep
      have := projects.nodeAt_top listed
      exact ⟨root, rfl, by omega, by omega⟩
    · obtain ⟨node, _, found, starts, stops, -⟩ := projects.nodeAt_deep listed deep
      exact ⟨node, found, by omega, by omega⟩
  refine ⟨⟨?_, parent, start, projects.source ▸ stop, ?_, ?_, ?_, ?_⟩, ?_, ?_, ?_⟩
  · exact projects.size ▸ (List.getElem?_eq_some_iff.mp top).1
  · exact fun index _ child link => projects.mem_childrenOf.mp link
  · intro child inside parent linked
    obtain ⟨place, listed⟩ := projects.exists_place inside
    by_cases deep : place = []
    · cases deep
      cases linked.symm.trans (projects.nodeAt_top listed).2.2
    · obtain ⟨_, parent, -, -, -, above, _, found, -⟩ := projects.nodeAt_deep listed deep
      cases linked.symm.trans above
      refine ⟨Int.natCast_nonneg _, projects.size ▸ (List.getElem?_eq_some_iff.mp found).1, ?_⟩
      exact projects.mem_childrenOf.mpr ⟨inside, above⟩
  · intro index _ child link
    obtain ⟨place, node, listed, deep, found, starts, stops, above, listed', up, -⟩ :=
      projects.near_of_link link
    obtain ⟨outer, found', low, high⟩ := position listed'
    obtain ⟨more, rfl⟩ := up.trans ( dropLast_prefix place)
    rw [at?_append, found', Option.bind_some] at found
    have range := (show outer.IsNested from All.below nested found').range found
    omega
  · intro index _
    refine (projects.pairwise_lt index).imp_of_mem fun {left right} link link' less => ?_
    obtain ⟨low, _, listed, -, found, -, stops, -⟩ := projects.near_of_link link
    obtain ⟨high, _, listed', -, found', starts, -⟩ := projects.near_of_link link'
    obtain ⟨before, beside⟩ := projects.beside_of_link less link link' listed listed'
    have := (nested.order found found' before).2 beside
    omega
  · intro index inside linked
    obtain ⟨place, listed⟩ := projects.exists_place inside
    by_cases deep : place = []
    · cases deep
      exact Nat.eq_zero_of_not_pos fun later => List.lt_irrefl _ (projects.lt_of_lt top listed later)
    · obtain ⟨_, _, -, -, -, above, -⟩ := projects.nodeAt_deep listed deep
      cases linked.symm.trans above
  · exact fun index _ => (projects.pairwise_lt index).imp Nat.ne_of_lt
  · intro index _ child link
    obtain ⟨place, node, listed, deep, -, -, -, above, listed', up, -⟩ := projects.near_of_link link
    have less : place.dropLast < place.dropLast ++ [place.getLast deep] := lt_child
    rw [dropLast_concat_getLast] at less
    exact projects.number_lt_of_lt listed' listed (List.lt_of_le_of_lt up.le less)

theorem walk_eq (arena : tree.IsArena) : tree.walk = range tree.nodes.size := by
  refine arena.walk_eq fun index _ => ?_
  refine (projects.pairwise_lt index).imp_of_mem fun {left right} link link' less
    depth further inner other below below' => ?_
  obtain ⟨low, _, listed, -⟩ := projects.near_of_link link
  obtain ⟨high, _, listed', -⟩ := projects.near_of_link link'
  obtain ⟨before, beside⟩ := projects.beside_of_link less link link' listed listed'
  obtain ⟨_, found, more, rfl⟩ := projects.isPrefix_of_under below listed
  obtain ⟨_, found', further, rfl⟩ := projects.isPrefix_of_under below' listed'
  exact projects.number_lt_of_lt found found' (append_lt_append before beside more further)

end Projects

/-- A tree whose ranges are nested and in the source becomes an arena that is numbered in pre-order. -/
theorem isArena_toTree (nested : root.IsNested) (first : 0 ≤ root.start) (last : root.stop ≤ data.length) :
    (root.toTree data).source = data ∧ (root.toTree data).IsArena ∧
      (root.toTree data).walk = range (root.toTree data).nodes.size := by
  obtain ⟨places, projects, all⟩ := root.exists_projects_toTree data
  have arena := projects.isArena all nested first last
  exact ⟨projects.source, arena, projects.walk_eq arena⟩

/-! ### Open nodes -/

section Stretch

variable {parent : Nat} {kind : String} {start stop last : Int}

/-- A node that is added and then stretched was added with its whole range. -/
theorem stretch_grow_self (inside : parent < tree.nodes.size) :
    (tree.grow kind start start parent).stretch tree.nodes.size stop = tree.grow kind start stop parent := by
  rw [tree.grow_eq _ _ _ inside, tree.grow_eq _ _ _ inside, Tree.stretch]
  congr 1
  refine Array.ext_getElem? fun index => ?_
  grind

theorem stretch_grow (there : index < tree.nodes.size) (inside : parent < tree.nodes.size) :
    (tree.grow kind start stop parent).stretch index last =
      (tree.stretch index last).grow kind start stop parent := by
  have size : (tree.stretch index last).nodes.size = tree.nodes.size := by simp [Tree.stretch]
  rw [tree.grow_eq _ _ _ inside, (tree.stretch index last).grow_eq _ _ _ (size ▸ inside), size]
  simp only [Tree.stretch]
  congr 1
  refine Array.ext_getElem? fun index => ?_
  grind

mutual

theorem stretch_plant {tree : Tree} {parent : Nat} : ∀ node : Concrete, index < tree.nodes.size →
    parent < tree.nodes.size → tree.nodes.size ≤ (plant tree parent node).nodes.size ∧
      (plant tree parent node).stretch index last = plant (tree.stretch index last) parent node
  | .mk kind start stop flags children, there, inside => by
    have size : (tree.stretch index last).nodes.size = tree.nodes.size := by simp [Tree.stretch]
    have grown := tree.size_grow kind start stop inside
    rw [plant, plant, size]
    cases flags.named with
    | true =>
      have below : tree.nodes.size < (tree.grow kind start stop parent).nodes.size := by omega
      obtain ⟨larger, same⟩ := stretch_plantAll children (Nat.lt_trans there below) below
      simp only [if_true]
      rw [same, stretch_grow there inside]
      exact ⟨by omega, rfl⟩
    | false => exact stretch_plantAll children there inside

theorem stretch_plantAll {tree : Tree} {parent : Nat} : ∀ nodes : List Concrete, index < tree.nodes.size →
    parent < tree.nodes.size → tree.nodes.size ≤ (plantAll tree parent nodes).nodes.size ∧
      (plantAll tree parent nodes).stretch index last = plantAll (tree.stretch index last) parent nodes
  | [], _, _ => ⟨Nat.le_refl _, rfl⟩
  | first :: rest, there, inside => by
    obtain ⟨larger, same⟩ := stretch_plant first there inside
    obtain ⟨larger', same'⟩ := stretch_plantAll rest (Nat.lt_of_lt_of_le there larger)
      (Nat.lt_of_lt_of_le inside larger)
    rw [plantAll, plantAll, same', same]
    exact ⟨Nat.le_trans larger larger', rfl⟩

end

theorem lt_size_plantAll (inside : parent < tree.nodes.size) (nodes : List Concrete) :
    parent < (plantAll tree parent nodes).nodes.size :=
  Nat.lt_of_lt_of_le inside (@stretch_plantAll parent 0 tree parent nodes inside inside).1

theorem plantAll_append (tree : Tree) (parent : Nat) (nodes more : List Concrete) :
    plantAll tree parent (nodes ++ more) = plantAll (plantAll tree parent nodes) parent more := by
  induction nodes generalizing tree with
  | nil => rfl
  | cons first rest ih => exact ih _

theorem stretch_plantAll_grow (inside : parent < tree.nodes.size) (nodes : List Concrete) :
    (plantAll (tree.grow kind start start parent) tree.nodes.size nodes).stretch tree.nodes.size stop =
      plant tree parent (.mk kind start stop { named := true } nodes) := by
  have below : tree.nodes.size < (tree.grow kind start start parent).nodes.size := by
    rw [tree.size_grow kind start start inside]
    exact Nat.lt_succ_self _
  rw [(stretch_plantAll nodes below below).2, stretch_grow_self inside]
  rfl

end Stretch

/-! ### Nodes one after the other -/

/-- Nodes lie between two offsets, each with nested ranges and before the next. -/
def Spaced : Int → List Concrete → Int → Prop
  | low, [], high => low ≤ high
  | low, node :: rest, high => low ≤ node.start ∧ node.IsNested ∧ Spaced node.stop rest high

namespace Spaced

variable {low middle high : Int} {nodes more : List Concrete}

theorem append (spaced : Spaced low nodes middle) (spaced' : Spaced middle more high) :
    Spaced low (nodes ++ more) high := by
  induction nodes generalizing low with
  | nil =>
    cases more with
    | nil => exact Int.le_trans spaced spaced'
    | cons node more => exact ⟨Int.le_trans spaced spaced'.1, spaced'.2⟩
  | cons node nodes ih => exact ⟨spaced.1, spaced.2.1, ih spaced.2.2⟩

theorem bounds (spaced : Spaced low nodes high) :
    low ≤ high ∧ (∀ node ∈ nodes, node.IsNested ∧ low ≤ node.start ∧ node.stop ≤ high) ∧
      nodes.Pairwise fun left right => left.stop ≤ right.start := by
  induction nodes generalizing low with
  | nil => exact ⟨spaced, forall_mem_nil _, .nil⟩
  | cons node nodes ih =>
    obtain ⟨first, nested, rest⟩ := spaced
    obtain ⟨last, inside, apart⟩ := ih rest
    have proper := (nested [] node rfl).proper
    refine ⟨by omega, forall_mem_cons.mpr ⟨⟨nested, first, last⟩, fun other member => ?_⟩,
      pairwise_cons.mpr ⟨fun other member => (inside other member).2.1, apart⟩⟩
    have range := inside other member
    exact ⟨range.1, by omega, range.2.2⟩

theorem isNested {kind : String} {flags : Flags} (spaced : Spaced low nodes high) :
    (Concrete.mk kind low high flags nodes).IsNested := by
  obtain ⟨proper, inside, apart⟩ := spaced.bounds
  exact all_node.mpr ⟨⟨proper, fun node member => (inside node member).2, apart⟩,
    fun node member => (inside node member).1⟩

end Spaced

end Grammar.Concrete

namespace Grammar.Lines

def line (span : Nat × Nat) : Concrete :=
  .mk "line" span.1 span.2 { named := true } []

/-- A file as a concrete tree, with its lines right below the root. -/
def outline (data : Bytes) : Concrete :=
  .mk "file" 0 data.length {} ((spans 0 0 data).map line)

theorem spaced_spans {start offset : Nat} (within : start ≤ offset) (data : Bytes) :
    Concrete.Spaced start ((spans start offset data).map line) (offset + data.length : Nat) := by
  have first : ∀ {start stop next high : Nat} {rest : List Concrete}, start ≤ stop → stop ≤ next →
      Concrete.Spaced next rest high → Concrete.Spaced start (line (start, stop) :: rest) high := by
    intro start stop next high rest proper later spaced
    have leaf : Concrete.Spaced start [] stop := Int.ofNat_le.mpr proper
    have gap : Concrete.Spaced stop [] next := Int.ofNat_le.mpr later
    exact ⟨Int.le_refl _, leaf.isNested, gap.append spaced⟩
  fun_induction spans start offset data with
  | case1 start offset => exact first within (Nat.le_refl _) (Int.le_refl _)
  | case2 start offset => exact Int.ofNat_le.mpr within
  | case3 start offset rest ih =>
    rw [length_cons, Nat.add_comm rest.length, ← Nat.add_assoc]
    exact first within (Nat.le_succ _) (ih (Nat.le_refl _))
  | case4 start offset byte rest other ih =>
    rw [length_cons, Nat.add_comm rest.length, ← Nat.add_assoc]
    exact ih (by omega)

theorem isNested_outline (data : Bytes) : (outline data).IsNested := by
  have spaced := spaced_spans (Nat.le_refl 0) data
  rw [Nat.zero_add] at spaced
  exact spaced.isNested

theorem parse_eq (data : Bytes) : parse data = (outline data).toTree data := by
  have planted : ∀ (spans : List (Nat × Nat)) tree,
      spans.foldl (fun tree span => tree.grow "line" span.1 span.2 0) tree =
        Concrete.plantAll tree 0 (spans.map line) := by
    intro spans
    induction spans with
    | nil => exact fun _ => rfl
    | cons span rest ih => exact fun _ => ih _
  rw [parse, Concrete.toTree_eq, planted, (Concrete.stretch_plantAll _ Nat.one_pos Nat.one_pos).2]
  rfl

end Grammar.Lines

namespace Grammar.Statements

def Layout.start (layout : Layout) (clause : Bool) (statement : Statement) : Except Failure Int :=
  if clause then layout.clauseOffset statement else layout.startOf statement

def Layout.stop (layout : Layout) (clause : Bool) (statement : Statement) : Except Failure Int :=
  if clause then layout.stopOfClause statement else layout.stopOf statement

def enclose (kind : String) (start stop : Except Failure Int) (nodes : Except Failure (List Concrete)) :
    Except Failure (List Concrete) := do
  let start ← start
  let nodes ← nodes
  return [.mk kind start (← stop) { named := true } nodes]

def chain (nodes more : Except Failure (List Concrete)) : Except Failure (List Concrete) := do
  return (← nodes) ++ (← more)

/-- A body or a group of clauses, unless there is nothing in it. -/
def Layout.block (layout : Layout) (kind : String) (clause : Bool) (statements : List Statement)
    (nodes : Except Failure (List Concrete)) : Except Failure (List Concrete) :=
  match statements with
  | [] => .ok []
  | first :: rest => do
    -- of clauses all starts are asked for, though only the first is used
    if clause then discard ((first :: rest).mapM layout.clauseOffset)
    enclose kind (layout.start clause first) (layout.stop clause ((first :: rest).getLastD first)) nodes

mutual

def outline (layout : Layout) (clause : Bool) : Statement → Except Failure (List Concrete)
  | .mk kind span decorators pattern bodiless body handlers cases orElse last =>
    let whole :=
      Statement.mk kind span decorators pattern bodiless body handlers cases orElse last
    enclose kind (layout.start clause whole) (layout.stop clause whole)
      (chain (chain (chain (chain (layout.block "suite" false body (outlineAll layout false body))
        (layout.block "handlers" true handlers (outlineAll layout true handlers)))
        (layout.block "cases" true cases (outlineAll layout true cases)))
        (layout.block "suite" false orElse (outlineAll layout false orElse)))
        (layout.block "suite" false last (outlineAll layout false last)))

def outlineAll (layout : Layout) (clause : Bool) : List Statement → Except Failure (List Concrete)
  | [] => .ok []
  | first :: rest => chain (outline layout clause first) (outlineAll layout clause rest)

end

/-- A way to add to a tree plants some nodes, or fails as they do. -/
def Plants (build : Tree → Nat → Except Failure Tree) (nodes : Except Failure (List Concrete)) : Prop :=
  ∀ ⦃tree parent⦄, parent < tree.nodes.size →
    build tree parent = nodes.map (Concrete.plantAll tree parent)

theorem Plants.chain {first next : Tree → Nat → Except Failure Tree}
    {nodes more : Except Failure (List Concrete)} (plants : Plants first nodes) (plants' : Plants next more) :
    Plants (fun tree parent => first tree parent >>= (next · parent)) (chain nodes more) := by
  intro tree parent inside
  dsimp only
  rw [plants inside]
  cases nodes with
  | error _ => rfl
  | ok nodes =>
    refine (plants' (Concrete.lt_size_plantAll inside nodes)).trans ?_
    cases more with
    | error _ => rfl
    | ok more => exact congrArg Except.ok (Concrete.plantAll_append tree parent nodes more).symm

theorem Plants.enclose {inner : Tree → Nat → Except Failure Tree} {kind : String}
    {start stop : Except Failure Int} {nodes : Except Failure (List Concrete)} (plants : Plants inner nodes) :
    Plants (fun tree parent => do
        let start ← start
        let filled ← inner (openNode tree kind start parent) tree.nodes.size
        return filled.stretch tree.nodes.size (← stop))
      (enclose kind start stop nodes) := by
  intro tree parent inside
  cases start with
  | error _ => rfl
  | ok start =>
    have below : tree.nodes.size < (openNode tree kind start parent).nodes.size := by
      rw [openNode, tree.size_grow _ _ _ inside]
      exact Nat.lt_succ_self _
    show inner _ _ >>= _ = _
    rw [plants below]
    cases nodes with
    | error _ => rfl
    | ok nodes =>
      cases stop with
      | error _ => rfl
      | ok stop => exact congrArg Except.ok (Concrete.stretch_plantAll_grow inside nodes)

variable {layout : Layout}

mutual

theorem plants_addStatement : ∀ statement,
    Plants (addStatement layout · · statement) (outline layout false statement)
  | .mk kind span decorators pattern bodiless body handlers cases orElse last => by
    have parts := ((((plants_addSuite body).chain (plants_addGroup "handlers" handlers)).chain
      (plants_addGroup "cases" cases)).chain (plants_addSuite orElse)).chain (plants_addSuite last)
    intro tree parent inside
    refine Eq.trans ?_ (parts.enclose inside)
    simp only [bind_assoc]
    rfl

theorem plants_addStatements : ∀ statements,
    Plants (addStatements layout · · statements) (outlineAll layout false statements)
  | [] => fun _ _ _ => rfl
  | first :: rest => (plants_addStatement first).chain (plants_addStatements rest)

theorem plants_addSuite : ∀ statements, Plants (addSuite layout · · statements)
    (layout.block "suite" false statements (outlineAll layout false statements))
  | [] => fun _ _ _ => rfl
  | first :: rest => by
    have inner := (plants_addStatement first).chain (plants_addStatements rest)
    intro tree parent inside
    refine Eq.trans ?_ (inner.enclose inside)
    simp only [bind_assoc]
    rfl

theorem plants_addGroup (kind : String) : ∀ statements, Plants (addGroup layout · · kind statements)
    (layout.block kind true statements (outlineAll layout true statements))
  | [] => fun _ _ _ => rfl
  | first :: rest => by
    have inner := (plants_addClause first).chain (plants_addClauses rest)
    intro tree parent inside
    dsimp only
    rw [addGroup, Layout.block]
    cases told : (first :: rest).mapM layout.clauseOffset with
    | error _ => rfl
    | ok starts =>
      refine Eq.trans ?_ (inner.enclose inside)
      obtain ⟨start, _, starts, -, rfl⟩ := mapM_cons_eq_ok_iff.mp told
      rw [Layout.start, if_pos rfl, starts]
      simp only [bind_assoc]
      rfl

theorem plants_addClause : ∀ statement,
    Plants (addClause layout · · statement) (outline layout true statement)
  | .mk kind span decorators pattern bodiless body handlers cases orElse last => by
    have parts := ((((plants_addSuite body).chain (plants_addGroup "handlers" handlers)).chain
      (plants_addGroup "cases" cases)).chain (plants_addSuite orElse)).chain (plants_addSuite last)
    intro tree parent inside
    refine Eq.trans ?_ (parts.enclose inside)
    simp only [bind_assoc]
    rfl

theorem plants_addClauses : ∀ statements,
    Plants (addClauses layout · · statements) (outlineAll layout true statements)
  | [] => fun _ _ _ => rfl
  | first :: rest => (plants_addClause first).chain (plants_addClauses rest)

end

def Layout.ofData (data : Bytes) : Layout :=
  { data, starts := data.lineStarts }

def outlineProgram (data : Bytes) (program : List Statement) : Except Failure Concrete :=
  (outlineAll (.ofData data) false program).map (.mk "module" 0 data.length {})

theorem toTree_eq (data : Bytes) (program : List Statement) :
    toTree data program = (outlineProgram data program).map (Concrete.toTree data) := by
  have planted : addStatements (.ofData data)
      { source := data, nodes := #[{ kind := "module", start := 0, stop := 0 }] } 0 program = _ :=
    plants_addStatements program Nat.one_pos
  rw [toTree, ← Layout.ofData, planted, outlineProgram]
  cases outlineAll (.ofData data) false program with
  | error _ => rfl
  | ok nodes =>
    refine congrArg Except.ok ?_
    rw [(Concrete.stretch_plantAll _ Nat.one_pos Nat.one_pos).2, Concrete.toTree_eq]
    rfl

/-! ### Statements one after the other -/

/-- Statements or clauses lie between two offsets, each before the next. What stands in one of them lies
between its start and its stop, in order: the body, the handlers, the cases, and the two last bodies. -/
inductive Layout.Orders (layout : Layout) : Bool → Int → List Statement → Int → Prop where
  | nil {clause : Bool} {low high : Int} : low ≤ high → layout.Orders clause low [] high
  | cons {clause : Bool} {low start inBody inHandlers inCases inElse stop high : Int} {kind : String}
      {span : Option Span} {decorators : List Mark} {pattern : Except Absence Mark}
      {bodiless : Option Absence} {body handlers cases orElse last rest : List Statement} :
      layout.start clause
        (.mk kind span decorators pattern bodiless body handlers cases orElse last) = .ok start →
      layout.stop clause
        (.mk kind span decorators pattern bodiless body handlers cases orElse last) = .ok stop →
      low ≤ start → layout.Orders false start body inBody →
      layout.Orders true inBody handlers inHandlers → layout.Orders true inHandlers cases inCases →
      layout.Orders false inCases orElse inElse → layout.Orders false inElse last stop →
      layout.Orders clause stop rest high → layout.Orders clause low
        (.mk kind span decorators pattern bodiless body handlers cases orElse last :: rest) high

theorem enclose_eq_ok_iff {kind : String} {start stop : Except Failure Int}
    {nodes : Except Failure (List Concrete)} {made : List Concrete} :
    enclose kind start stop nodes = .ok made ↔ ∃ low high inner, start = .ok low ∧ stop = .ok high ∧
      nodes = .ok inner ∧ made = [.mk kind low high { named := true } inner] := by
  cases start <;> cases nodes <;> cases stop <;>
    simp [enclose, bind, Except.bind, pure, Except.pure, eq_comm]

theorem chain_eq_ok_iff {nodes more : Except Failure (List Concrete)} {made : List Concrete} :
    chain nodes more = .ok made ↔ ∃ one other, nodes = .ok one ∧ more = .ok other ∧
      made = one ++ other := by
  cases nodes <;> cases more <;> simp [chain, bind, Except.bind, pure, Except.pure, eq_comm]

variable {clause : Bool} {low middle high : Int} {statements : List Statement}

def Fills (low : Int) (nodes : Except Failure (List Concrete)) (high : Int) : Prop :=
  ∀ made, nodes = .ok made → Concrete.Spaced low made high

theorem Fills.chain {nodes more : Except Failure (List Concrete)} (fills : Fills low nodes middle)
    (fills' : Fills middle more high) : Fills low (chain nodes more) high := by
  intro made chained
  obtain ⟨one, other, told, told', rfl⟩ := chain_eq_ok_iff.mp chained
  exact (fills one told).append (fills' other told')

/-- The nodes of statements take the space between two offsets, and end where the last statement does. -/
def Layout.Spaces (layout : Layout) (clause : Bool) (low : Int) (statements : List Statement)
    (high : Int) : Prop :=
  ∀ nodes, outlineAll layout clause statements = .ok nodes → Concrete.Spaced low nodes high ∧
    ∀ last ∈ statements.getLast?, ∀ stop, layout.stop clause last = .ok stop →
      Concrete.Spaced low nodes stop ∧ stop ≤ high

/-- A body or a group takes the space of what is in it, from the first start to the last stop. -/
theorem Layout.Spaces.fills (spaces : layout.Spaces clause low statements high) (kind : String) :
    Fills low (layout.block kind clause statements (outlineAll layout clause statements)) high := by
  intro made blocked
  cases statements with
  | nil =>
    cases blocked
    exact (spaces [] rfl).1
  | cons first rest =>
    obtain ⟨start, stop, nodes, starts, stops, outlined, rfl⟩ : ∃ start stop nodes,
        layout.start clause first = .ok start ∧
        layout.stop clause ((first :: rest).getLastD first) = .ok stop ∧
        outlineAll layout clause (first :: rest) = .ok nodes ∧
        made = [.mk kind start stop { named := true } nodes] := by
      rw [Layout.block] at blocked
      split at blocked
      · obtain ⟨_, -, blocked⟩ := bind_eq_ok_iff.mp blocked
        exact enclose_eq_ok_iff.mp blocked
      · exact enclose_eq_ok_iff.mp blocked
    obtain ⟨spaced, ends⟩ := (spaces nodes outlined).2 _ (by simp [getLast?_cons]) stop stops
    obtain ⟨one, other, here, -, rfl⟩ := chain_eq_ok_iff.mp outlined
    cases first
    obtain ⟨start', stop', inner, starts', -, -, rfl⟩ := enclose_eq_ok_iff.mp here
    cases starts.symm.trans starts'
    have inside : Concrete.Spaced start
        ([.mk _ start stop' { named := true } inner] ++ other) stop := ⟨Int.le_refl _, spaced.2⟩
    exact ⟨spaced.1, inside.isNested, ends⟩

theorem Layout.Orders.spaces (orders : layout.Orders clause low statements high) :
    layout.Spaces clause low statements high := by
  induction orders with
  | nil within =>
    rintro nodes ⟨⟩
    exact ⟨within, by simp⟩
  | @cons clause low start _ _ _ _ stop high _ _ _ _ _ _ _ _ _ _ rest starts stops within _ _ _ _ _ _
      body handlers cases orElse last later =>
    intro nodes outlined
    obtain ⟨one, other, here, outlined', rfl⟩ := chain_eq_ok_iff.mp outlined
    obtain ⟨start', stop', inner, starts', stops', parts, rfl⟩ := enclose_eq_ok_iff.mp here
    cases starts.symm.trans starts'
    cases stops.symm.trans stops'
    have inside := ((((body.fills _).chain (handlers.fills _)).chain (cases.fills _)).chain
      (orElse.fills _)).chain (last.fills _) inner parts
    obtain ⟨spaced, ends⟩ := later other outlined'
    refine ⟨⟨within, inside.isNested, spaced⟩, fun final member stop' stops' => ?_⟩
    cases rest with
    | nil =>
      cases member
      cases stops.symm.trans stops'
      cases outlined'
      exact ⟨⟨within, inside.isNested, Int.le_refl _⟩, spaced⟩
    | cons next rest =>
      obtain ⟨spaced, later⟩ := ends final (by simpa using member) stop' stops'
      exact ⟨⟨within, inside.isNested, spaced⟩, later⟩

end Grammar.Statements

/-- The ranges that outside parsers give for some bytes are nested and in order: those of a concrete tree,
or those that are found for statements and clauses. -/
def Parsers.Nest (parsers : Parsers) (grammar : Grammar) (data : Bytes) : Prop :=
  match grammar.reading with
  | .lines => True
  | .concrete =>
    let root := parsers.concrete grammar.name data
    root.IsNested ∧ 0 ≤ root.start ∧ root.stop ≤ data.length
  | .statements => ∀ program, parsers.statements data = .ok program →
    (Grammar.Statements.Layout.ofData data).Orders false 0 program data.length

/-- Every grammar makes well-formed trees. What is made of some bytes has them for its source; the root
spans them and is the only node without a parent; parents and children agree, and each child is listed
once; the children of a node lie in its range, in order and apart; and pre-order is the order of the
numbers. Of lines that is so for all bytes, else if the ranges that outside parsers give are nested. -/
theorem Grammar.parse_forms_arena (grammar : Grammar) (parsers : Parsers) (data : Bytes) {tree : Tree}
    (nest : parsers.Nest grammar data) (read : grammar.parse parsers data = .ok tree) :
    tree.source = data ∧ tree.IsArena ∧ tree.walk = List.range tree.nodes.size := by
  rw [parse] at read
  rw [Parsers.Nest] at nest
  split at read
  · cases read
    rw [Lines.parse_eq]
    exact Concrete.isArena_toTree (Lines.isNested_outline data) (Int.le_refl _) (Int.le_refl _)
  · next concrete =>
    rw [concrete] at nest
    rw [Concrete.parse] at read
    split at read
    · cases read
    · cases read
      exact Concrete.isArena_toTree nest.1 nest.2.1 nest.2.2
  · next statements =>
    rw [statements] at nest
    cases told : parsers.statements data with
    | error fault => cases fault <;> simp [told, Statements.parse] at read
    | ok program =>
      rw [told, Statements.parse, Statements.toTree_eq] at read
      rw [Statements.outlineProgram] at read
      cases outlined : Statements.outlineAll (.ofData data) false program with
      | error _ => simp [outlined, Except.map] at read
      | ok nodes =>
        rw [outlined] at read
        cases read
        have spaced := ((nest program told).spaces nodes outlined).1
        exact Concrete.isArena_toTree spaced.isNested (Int.le_refl _) (Int.le_refl _)

namespace Sample

open Grammar

def guarded : Bytes :=
  [116, 114, 121, 58, 10, 32, 120, 10, 101, 120, 99, 101, 112, 116, 58, 10, 32, 121, 10]

def guardedProgram : List Statement :=
  let line := fun number => Statement.mk "Expr" (some ⟨⟨number, 1⟩, ⟨number, 2⟩⟩) []
    (.error .missing) (some .missing) [] [] [] [] []
  [.mk "Try" (some ⟨⟨1, 0⟩, ⟨4, 2⟩⟩) [] (.error .missing) none [line 2]
    [.mk "ExceptHandler" (some ⟨⟨3, 0⟩, ⟨4, 2⟩⟩) [] (.error .missing) none [line 4] [] [] [] []] [] [] []]

def guardedParsers : Parsers where
  concrete _ _ := default
  statements _ := .ok guardedProgram

def statementGrammar : Grammar :=
  { name := "python", kinds := [], reading := .statements }

theorem parse_forms_arena_guarded : guardedParsers.Nest statementGrammar guarded ∧
    ∃ tree, statementGrammar.parse guardedParsers guarded = .ok tree ∧ tree.source = guarded ∧
      tree.IsArena ∧ tree.walk = List.range tree.nodes.size := by
  have nest : guardedParsers.Nest statementGrammar guarded := by
    rintro program ⟨⟩
    have same : ∀ {clause low}, (Statements.Layout.ofData guarded).Orders clause low [] low :=
      .nil (Int.le_refl _)
    have within : ∀ {clause low high}, low ≤ high →
        (Statements.Layout.ofData guarded).Orders clause low [] high := .nil
    apply Statements.Layout.Orders.cons rfl rfl (by decide)
    · exact .cons rfl rfl (by decide) same same same same (within (by decide)) same
    · apply Statements.Layout.Orders.cons rfl rfl (by decide)
      · exact .cons rfl rfl (by decide) same same same same (within (by decide)) same
      all_goals exact same
    · exact same
    · exact same
    · exact same
    · exact within (by decide)
  obtain ⟨tree, read⟩ : ∃ tree, statementGrammar.parse guardedParsers guarded = .ok tree := ⟨_, rfl⟩
  exact ⟨nest, tree, read, statementGrammar.parse_forms_arena guardedParsers guarded nest read⟩

end Sample
end Whittle
