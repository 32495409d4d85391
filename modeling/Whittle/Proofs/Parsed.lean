import Whittle.Proofs.Arena
import Whittle.Proofs.Proposals
import Whittle.Proofs.Readable

/-!
Projects whose trees are well formed. Of the outside parsers it is to be assumed that they make such
trees (`Parsers.MakeTrees`). Then a project that is made from contents has well-formed trees of its bytes,
and so has what becomes of it.
-/

namespace Whittle

/-- Whatever grammar reads some bytes makes a well-formed tree of them. -/
def Parsers.MakeTrees (parsers : Parsers) : Prop :=
  ∀ (grammar : Grammar) data tree, grammar.parse parsers data = .ok tree →
    tree.source = data ∧ tree.IsWellFormed

namespace Project

variable {parsers : Parsers} {registry : Grammar.Registry} {project : Project}

theorem isParsed_of_ofContents {root : Path} {contents : Listing Bytes} {removed : List String}
    (makes : parsers.MakeTrees)
    (made : ofContents parsers registry root contents removed = .ok project) : project.IsParsed := by
  intro name file found
  obtain ⟨grammar, -, read⟩ := (isReadable_of_ofContents made).reads name file found
  exact makes grammar file.data file.tree read

/-- What becomes of a project by buffers that were applied to it has well-formed trees again. -/
theorem IsParsed.commit {candidate : Candidate} {buffers : Buffers} (makes : parsers.MakeTrees)
    (parsed : project.IsParsed) (applied : project.apply parsers candidate = .ok buffers) :
    (project.commit buffers).2.IsParsed := by
  have all : project.All fun _ file => file.tree.source = file.data ∧ file.tree.IsWellFormed := parsed
  refine (all.commit applied fun name file data tree reparsed _ => ?_).1
  obtain ⟨grammar, -, reparsed⟩ := bind_eq_ok_iff.mp reparsed
  split at reparsed
  · cases reparsed
  · exact makes grammar data tree reparsed

end Project

/-! ### The small project -/

/-- The outside parsers of the small project make nothing but a root. -/
theorem Sample.host_makesTrees : host.parsers.MakeTrees := by
  intro grammar data tree read
  have nested : ∀ {root : Grammar.Concrete}, root.IsNested → 0 ≤ root.start → root.stop ≤ data.length →
      (root.toTree data).source = data ∧ (root.toTree data).IsWellFormed := fun nested first last =>
    have ⟨source, arena, _⟩ := Grammar.Concrete.isArena_toTree nested first last
    ⟨source, arena.toIsWellFormed⟩
  have leaf : ∀ kind stop, 0 ≤ stop → (Grammar.Concrete.mk kind 0 stop {} []).IsNested :=
    fun _ _ proper => Grammar.Concrete.all_node.mpr ⟨⟨proper, List.forall_mem_nil _, .nil⟩,
      List.forall_mem_nil _⟩
  unfold Grammar.parse at read
  split at read
  · cases read
    rw [Grammar.Lines.parse_eq]
    exact nested (Grammar.Lines.isNested_outline data) (Int.le_refl _) (Int.le_refl _)
  · cases read
    exact nested (leaf _ _ (Int.le_refl 0)) (Int.le_refl _) (Int.natCast_nonneg _)
  · cases (Grammar.Statements.toTree_eq data []).symm.trans read
    exact nested (leaf _ _ (Int.natCast_nonneg _)) (Int.le_refl _) (Int.le_refl _)

end Whittle
