import Whittle.Proofs.Projection

/-!
Concrete trees whose ranges are nested: those of the children of a node lie in its own, in order and
apart. Of two places the earlier then starts no later, so the first flaw in pre-order is also the one
with the least offset, and that is what is reported (`parse_reports_first_flaw`).
-/

namespace Whittle

open List

namespace Grammar.Concrete

def start : Concrete → Int
  | .mk _ start _ _ _ => start

def stop : Concrete → Int
  | .mk _ _ stop _ _ => stop

def isFlaw (node : Concrete) : Bool :=
  node.flags.error || node.flags.missing

/-- The children of a node lie in its range, in order and apart. -/
@[mk_iff] structure Encloses (node : Concrete) : Prop where
  proper : node.start ≤ node.stop
  inside : ∀ child ∈ node.children, node.start ≤ child.start ∧ child.stop ≤ node.stop
  apart : node.children.Pairwise fun left right => left.stop ≤ right.start

/-- Something holds of every node of a tree. -/
def All (holds : Concrete → Prop) (root : Concrete) : Prop :=
  ∀ place node, root.at? place = some node → holds node

def IsNested : Concrete → Prop :=
  All Encloses

variable {root node inner : Concrete} {place other : List Nat} {holds : Concrete → Prop}

theorem All.below (all : root.All holds) (found : root.at? place = some node) : node.All holds :=
  fun more inner there => all (place ++ more) inner (by rw [at?_append, found]; exact there)

theorem All.child {child : Concrete} {index : Nat} (all : root.All holds)
    (link : root.children[index]? = some child) : child.All holds :=
  all.below (show root.at? [index] = some child by rw [at?, link]; rfl)

theorem all_node {kind : String} {start stop : Int} {flags : Flags} {children : List Concrete} :
    (Concrete.mk kind start stop flags children).All holds ↔
      holds (.mk kind start stop flags children) ∧ ∀ child ∈ children, child.All holds := by
  constructor
  · intro all
    refine ⟨all [] _ rfl, fun child member => ?_⟩
    obtain ⟨index, link⟩ := mem_iff_getElem?.mp member
    exact all.child link
  · rintro ⟨here, below⟩ (_ | ⟨index, place⟩) node found
    · cases found
      exact here
    · obtain ⟨child, link, found⟩ := Option.bind_eq_some_iff.mp found
      exact below child (mem_of_getElem? link) place node found

namespace IsNested

theorem range (nested : root.IsNested) (found : root.at? place = some node) :
    root.start ≤ node.start ∧ node.start ≤ node.stop ∧ node.stop ≤ root.stop := by
  induction place generalizing root with
  | nil =>
    cases found
    exact ⟨Int.le_refl _, (nested [] _ rfl).proper, Int.le_refl _⟩
  | cons index place ih =>
    obtain ⟨child, link, found⟩ := Option.bind_eq_some_iff.mp found
    have inside := (nested [] root rfl).inside child (mem_of_getElem? link)
    have range := ih (All.child nested link) found
    omega

/-- The earlier of two places starts no later, and ends before the other starts unless it is above. -/
theorem order (nested : root.IsNested) (found : root.at? place = some node)
    (found' : root.at? other = some inner) (less : place < other) :
    node.start ≤ inner.start ∧ (¬ place <+: other → node.stop ≤ inner.start) := by
  induction place generalizing root other with
  | nil =>
    cases found
    exact ⟨(nested.range found').1, fun beside => absurd nil_prefix beside⟩
  | cons index place ih =>
    cases other with
    | nil => exact absurd less (not_lt_nil _)
    | cons index' other =>
      obtain ⟨child, link, found⟩ := Option.bind_eq_some_iff.mp found
      obtain ⟨child', link', found'⟩ := Option.bind_eq_some_iff.mp found'
      rcases cons_lt_cons_iff.mp less with before | ⟨rfl, later⟩
      · have range := (show child.IsNested from All.child nested link).range found
        have range' := (show child'.IsNested from All.child nested link').range found'
        obtain ⟨low, rfl⟩ := List.getElem?_eq_some_iff.mp link
        obtain ⟨high, rfl⟩ := List.getElem?_eq_some_iff.mp link'
        have apart := pairwise_iff_getElem.mp (nested [] root rfl).apart index index' low high before
        omega
      · cases link.symm.trans link'
        simpa [cons_prefix_cons] using ih (All.child nested link) found found' later

end IsNested

/-! ### The first flaw -/

def preorder : Concrete → List Concrete
  | .mk kind start stop flags children =>
    .mk kind start stop flags children :: children.flatMap preorder

theorem preorder_eq (root : Concrete) : root.preorder = root :: root.children.flatMap preorder := by
  cases root
  rw [preorder, children]

/-- Whether a node is marked tells whether there is a flaw at it or below. -/
def IsHonest (node : Concrete) : Prop :=
  node.flags.marked = true ↔ ∃ inner ∈ node.preorder, inner.isFlaw = true

/-- The search comes upon the nodes in pre-order, although it leaves out those below a node that is
not marked. -/
theorem firstFlaw_eq (stack : List Concrete) (honest : ∀ root ∈ stack, root.All IsHonest) :
    firstFlaw stack = ((stack.flatMap preorder).find? isFlaw).map start := by
  fun_induction firstFlaw stack with
  | case1 => rfl
  | case2 kind start stop flags children stack flaw =>
    rw [flatMap_cons, preorder_eq, cons_append, find?_cons_of_pos (by exact flaw)]
    rfl
  | case3 kind start stop flags children stack sound marked ih =>
    obtain ⟨first, rest⟩ := forall_mem_cons.mp honest
    rw [pushAll_eq] at ih ⊢
    rw [ih (forall_mem_append.mpr ⟨(all_node.mp first).2, rest⟩), flatMap_cons, preorder_eq, cons_append,
      find?_cons_of_neg (by exact sound), flatMap_append]
    rfl
  | case4 kind start stop flags children stack sound unmarked ih =>
    obtain ⟨first, rest⟩ := forall_mem_cons.mp honest
    have clean := mt (first [] _ rfl).mpr unmarked
    rw [ih rest, flatMap_cons, find?_append, find?_eq_none.mpr fun node member flaw =>
      clean ⟨node, member, flaw⟩, Option.none_or]

theorem children_induction {motive : Concrete → Prop}
    (step : ∀ root, (∀ child ∈ root.children, motive child) → motive root) (root : Concrete) :
    motive root := by
  obtain ⟨kind, start, stop, flags, children⟩ := root
  refine step _ fun child member => ?_
  have smaller := sizeOf_lt_of_mem member
  exact children_induction step child
termination_by sizeOf root
decreasing_by
  simp only [Concrete.children] at smaller
  simp
  omega

/-- Where ranges are nested, the nodes in pre-order start one after the other. -/
theorem IsNested.pairwise_preorder (root : Concrete) (nested : root.IsNested) :
    (∀ node ∈ root.preorder, root.start ≤ node.start ∧ node.start ≤ root.stop) ∧
      root.preorder.Pairwise (·.start ≤ ·.start) := by
  induction root using children_induction with
  | step root ih =>
    obtain ⟨proper, inside, apart⟩ := nested [] root rfl
    have child : ∀ child ∈ root.children, _ := fun child member =>
      have ⟨_, link⟩ := mem_iff_getElem?.mp member
      ih child member (All.child nested link)
    have below : ∀ node ∈ root.children.flatMap preorder,
        root.start ≤ node.start ∧ node.start ≤ root.stop := by
      intro node member
      obtain ⟨above, listed, member⟩ := mem_flatMap.mp member
      have range := (child above listed).1 node member
      have outer := inside above listed
      omega
    rw [preorder_eq]
    refine ⟨forall_mem_cons.mpr ⟨⟨Int.le_refl _, proper⟩, below⟩, pairwise_cons.mpr
      ⟨fun node member => (below node member).1, pairwise_flatMap.mpr
        ⟨fun above listed => (child above listed).2, apart.imp_of_mem ?_⟩⟩⟩
    intro left right listed listed' before node member other member'
    have range := (child left listed).1 node member
    have range' := (child right listed').1 other member'
    omega

/-- The first flaw is reported. If the marks are honest, a parse fails exactly if the concrete tree has
an error or a missing node; the offset that comes with the failure is that of the first such node in
pre-order, and none of them starts earlier. -/
theorem parse_reports_first_flaw (grammar : String) (data : Bytes) (root : Concrete)
    (honest : root.All IsHonest) (nested : root.IsNested) :
    ((∃ tree, parse grammar data root = .ok tree) ↔ ∀ node ∈ root.preorder, node.isFlaw = false) ∧
    ((∃ tree, parse grammar data root = .ok tree) ∨ ∃ node,
      root.preorder.find? isFlaw = some node ∧
      parse grammar data root = .error
        (.unparsed (grammar ++ " syntax error at byte " ++ toString node.start) (some node.start)) ∧
      ∀ other ∈ root.preorder, other.isFlaw = true → node.start ≤ other.start) := by
  have searched : firstFlaw [root] = (root.preorder.find? isFlaw).map start := by
    simpa using firstFlaw_eq [root] (forall_mem_singleton.mpr honest)
  cases marked : root.flags.marked with
  | false =>
    have sound : ∀ node ∈ root.preorder, node.isFlaw = false := fun node member =>
      Bool.eq_false_iff.mpr fun flaw => by
        cases marked.symm.trans ((honest [] root rfl).mpr ⟨node, member, flaw⟩)
    have read : parse grammar data root = .ok (root.toTree data) := by simp [parse, marked]
    exact ⟨iff_of_true ⟨_, read⟩ sound, .inl ⟨_, read⟩⟩
  | true =>
    obtain ⟨inner, member, flaw⟩ := (honest [] root rfl).mp marked
    obtain ⟨node, found⟩ := Option.isSome_iff_exists.mp (find?_isSome.mpr ⟨inner, member, flaw⟩)
    have failed : parse grammar data root = .error
        (.unparsed (grammar ++ " syntax error at byte " ++ toString node.start) (some node.start)) := by
      simp [parse, marked, searched, found, offsetText]
    refine ⟨iff_of_false (by simp [failed]) fun sound => ?_, .inr ⟨node, found, failed, ?_⟩⟩
    · simp [sound inner member] at flaw
    · obtain ⟨-, before, after, whole, clean⟩ := find?_eq_some_iff_append.mp found
      have ordered := (nested.pairwise_preorder root).2
      rw [whole, pairwise_append, pairwise_cons] at ordered
      intro other member isFlaw
      rw [whole] at member
      rcases mem_append.mp member with earlier | later
      · simp only [Bool.not_eq_eq_eq_not, Bool.not_true] at clean
        simp [clean other earlier] at isFlaw
      · rcases mem_cons.mp later with rfl | later
        · exact Int.le_refl _
        · exact ordered.2.1.1 other later

end Grammar.Concrete

namespace Sample

open Grammar

/-- An error in which something is missing, with something missing behind it. -/
def broken : Concrete :=
  .node "file" 0 5 { named := true } [
    .node "name" 0 1 { named := true } [],
    .node "ERROR" 1 4 { error := true } [.node ")" 2 2 { missing := true } []],
    .node ";" 5 5 { missing := true } []]

theorem broken_isHonest : broken.All Concrete.IsHonest := by
  simp [broken, Concrete.node, Concrete.all_node, Concrete.IsHonest, Concrete.preorder, Concrete.flags,
    Concrete.isFlaw]

theorem broken_isNested : broken.IsNested := by
  simp [broken, Concrete.node, Concrete.IsNested, Concrete.all_node, Concrete.encloses_iff,
    Concrete.start, Concrete.stop, Concrete.children]

/-- One of the three is reported, before which none of the others starts. -/
theorem parse_reports_first_flaw_broken : broken.All Concrete.IsHonest ∧ broken.IsNested ∧
    ∃ node, broken.preorder.find? Concrete.isFlaw = some node ∧
      Concrete.parse "c" [40, 97, 41, 98, 99] broken = .error
        (.unparsed ("c" ++ " syntax error at byte " ++ toString node.start) (some node.start)) ∧
      ∀ other ∈ broken.preorder, other.isFlaw = true → node.start ≤ other.start := by
  obtain ⟨-, ⟨_, read⟩ | first⟩ := Concrete.parse_reports_first_flaw "c" [40, 97, 41, 98, 99] broken
    broken_isHonest broken_isNested
  · simp [Concrete.parse, broken, Concrete.node, Concrete.flags] at read
  · exact ⟨broken_isHonest, broken_isNested, first⟩

end Sample
end Whittle
