import Mathlib.Data.List.Forall2
import Mathlib.Data.List.Pairwise
import Whittle.Proofs.Tiling

/-!
A candidate that simplifies replaces the outermost of the nodes that it is about. Those nodes are a
window of all that have a shorter equivalent, in pre-order, and any of them may stand below others. The
nodes of the window that are asked for among the nodes above one are those above it in the tree
(`mem_outer_iff`), and what is left comes in order and apart, and holds the rest.
-/

namespace Whittle.Pass

open List

/-- A node that is not blank, with the first of its equivalents that is shorter than it. -/
def IsTarget (tree : Tree) (grammar : Grammar) (target : Target) : Prop :=
  target.1 < tree.nodes.size ∧ target.2.1 = tree.nodeAt target.1 ∧
    (tree.text target.2.1).all Bytes.isBlank = false ∧
    (grammar.kind target.2.1.kind).simpler.find? (·.length < (tree.text target.2.1).length) =
      some target.2.2

/-- One of some nodes that stands below no other of them. -/
def IsOutermost (tree : Tree) (chunk : List Target) (target : Target) : Prop :=
  target ∈ chunk ∧ ∀ other ∈ chunk, ∀ depth, ¬ tree.Under other.1 (depth + 1) target.1

/-- A candidate replaces the outermost of some nodes, one after the other, and does nothing else; each
of the nodes lies in one of the ranges that are replaced, and in no other. -/
structure Simplifies (candidate : Candidate) (path : String) (tree : Tree) (chunk : List Target) :
    Prop where
  path : candidate.path = some path
  removed : candidate.removed = []
  splices : ∃ chosen : List Target, chosen.Nodup ∧
    (∀ target, target ∈ chosen ↔ IsOutermost tree chunk target) ∧
    candidate.splices = chosen.map spliceOf
  apart : candidate.splices.Pairwise fun left right => left.stop ≤ right.start
  covers : ∀ target ∈ chunk, ∃! splice, splice ∈ candidate.splices ∧
    splice.start ≤ target.2.1.start ∧ target.2.1.stop ≤ splice.stop

variable {tree : Tree} {grammar : Grammar} {chunk : List Target} {target : Target} (arena : tree.IsArena)

include arena

theorem mem_replaceable_iff : target ∈ replaceable tree grammar ↔ IsTarget tree grammar target := by
  rw [replaceable_eq, mem_filterMap]
  constructor
  · rintro ⟨index, visited, made⟩
    have inside := arena.lt_size_of_mem_walk visited
    obtain ⟨rfl, rest⟩ := (replacementAt?_eq_some_iff inside).mp made
    exact ⟨inside, rest⟩
  · rintro ⟨inside, rest⟩
    exact ⟨target.1, arena.mem_walk inside, (replacementAt?_eq_some_iff inside).mpr ⟨rfl, rest⟩⟩

theorem nodup_replaceable : (replaceable tree grammar).Nodup := by
  rw [replaceable_eq, List.Nodup, pairwise_filterMap]
  refine arena.nodup_walk.imp_of_mem ?_
  intro index other visited visited' different left made right made' same
  rw [← (of_replacementAt? arena.toIsWellFormed visited made).1, same] at different
  exact different (of_replacementAt? arena.toIsWellFormed visited' made').1

variable (sub : chunk.Sublist (replaceable tree grammar))

include sub

theorem mem_outer_iff : target ∈ outer tree chunk ↔ IsOutermost tree chunk target := by
  rw [mem_outer]
  refine and_congr_right fun member => ?_
  have inside := (of_mem_replaceable arena.toIsWellFormed (sub.subset member)).1
  have inside := arena.lt_size_of_mem_walk inside
  constructor
  · intro free other listed depth below
    have near := arena.isForest.add_le_of_under below
    cases (isCovered_of_under arena.toIsWellFormed listed (by omega) below).symm.trans free
  · intro free
    cases covered : isCovered tree chunk target with
    | false => rfl
    | true =>
      obtain ⟨top, depth, chosen, above⟩ := arena.under_of_anyAncestorUpTo inside covered
      obtain ⟨other, listed, rfl⟩ := chosen_iff.mp chosen
      exact absurd above (free other listed depth)

theorem existsUnique_splice (member : target ∈ chunk) : ∃! splice, splice ∈ replacements tree chunk ∧
    splice.start ≤ target.2.1.start ∧ target.2.1.stop ≤ splice.stop := by
  have node := fun {target} (member : target ∈ chunk) =>
    of_mem_replaceable arena.toIsWellFormed (sub.subset member)
  rw [replacements_eq_map arena.toIsWellFormed sub]
  obtain ⟨top, outermost, depth, below⟩ := exists_mem_outer arena.toIsWellFormed
    (fun _ member => (node member).1) member
  have holds := below.range arena.toIsWellFormed
  rw [← (node member).2.1, ← (node (mem_outer.mp outermost).1).2.1] at holds
  refine ⟨spliceOf top, ⟨mem_map_of_mem outermost, holds⟩, fun splice ⟨listed, first, last⟩ => ?_⟩
  by_contra different
  have some := (node member).2.2
  simp only [spliceOf, Splice.delta] at some
  -- two ranges that are apart do not share a node that has bytes
  have : Std.Symm fun left right : Splice => left.stop ≤ right.start ∨ right.stop ≤ left.start :=
    ⟨fun _ _ => Or.symm⟩
  have either : ((outer tree chunk).map spliceOf).Pairwise fun left right =>
      left.stop ≤ right.start ∨ right.stop ≤ left.start :=
    (pairwise_outer arena.toIsWellFormed sub).imp Or.inl
  have apart := either.forall listed (mem_map_of_mem outermost) different
  simp only [spliceOf] at apart
  omega

theorem simplifies_replacements {candidate : Candidate} {path : String}
    (own : candidate.path = some path) (removed : candidate.removed = [])
    (spliced : candidate.splices = replacements tree chunk) : Simplifies candidate path tree chunk where
  path := own
  removed := removed
  splices := ⟨outer tree chunk, (sub.nodup (nodup_replaceable arena)).filter _,
    fun _ => mem_outer_iff arena sub, spliced.trans (replacements_eq_map arena.toIsWellFormed sub)⟩
  apart := by
    rw [spliced, replacements_eq_map arena.toIsWellFormed sub]
    exact pairwise_outer arena.toIsWellFormed sub
  covers := fun _ => spliced ▸ existsUnique_splice arena sub

omit sub in
theorem replacements_singleton (member : target ∈ replaceable tree grammar) :
    replacements tree [target] = [spliceOf target] := by
  have sub := singleton_sublist.mpr member
  have outermost : target ∈ outer tree [target] := (mem_outer_iff arena sub).mpr
    ⟨mem_singleton_self _, fun other same depth below => by
      cases mem_singleton.mp same
      have := arena.isForest.add_le_of_under below
      omega⟩
  rw [replacements_eq_map arena.toIsWellFormed sub, outer, filter_cons, (mem_outer.mp outermost).2]
  rfl

omit arena sub in
/-- Simplifications replace the outermost nodes. A tracked file has a tree to which nodes were added one
by one. Then a target is a node of it that is not blank, with the first of its equivalents that is
strictly shorter. For each chunk of the plan over the targets in pre-order there is one candidate, and it
replaces exactly those targets of the chunk that stand below no other of them, each as a whole by its
equivalent, so that every target of the chunk lies in exactly one range that is replaced. And for
every target there is a candidate that replaces nothing else. -/
theorem proposals_simplify {project : Project} {path : String} {file : TrackedFile} {grammar : Grammar}
    (found : Listing.get? project.files path = some file) (arena : file.tree.IsArena)
    (known : project.grammarOf path = .ok grammar) (passIndex : Int) :
    (replaceable file.tree grammar).Nodup ∧
    (∀ target, target ∈ replaceable file.tree grammar ↔ IsTarget file.tree grammar target) ∧
    ∃ candidates, replaceSimpler.proposals project (some path) passIndex none = .ok candidates ∧
      List.Forall₂ (fun chunk candidate =>
        candidate.bookmark.position = some [(chunk.1 : Int), (chunk.2 : Int)] ∧
          Simplifies candidate path file.tree
            (((replaceable file.tree grammar).drop chunk.2).take chunk.1))
        (Chunk.plan (replaceable file.tree grammar).length none) candidates ∧
      ∀ target ∈ replaceable file.tree grammar, ∃ candidate ∈ candidates,
        candidate.splices = [spliceOf target] := by
  have window : ∀ size offset,
      ((replaceable file.tree grammar).toArray.extract offset (offset + size)).toList =
      ((replaceable file.tree grammar).drop offset).take size := by
    intro size offset
    rw [Array.toList_extract, List.extract_eq_take_drop, Nat.add_sub_cancel_left]
  refine ⟨nodup_replaceable arena, fun _ => mem_replaceable_iff arena, ?_⟩
  simp only [proposals, simplifications, Project.file_eq_ok_iff.mpr found, known, bind, Except.bind,
    List.size_toArray, window]
  refine ⟨_, rfl, List.forall₂_map_right_iff.mpr (List.forall₂_same.mpr fun chunk _ => ⟨rfl, ?_⟩), ?_⟩
  · exact simplifies_replacements arena ((List.take_sublist _ _).trans (List.drop_sublist _ _)) rfl rfl rfl
  · intro target member
    obtain ⟨index, there⟩ := List.mem_iff_getElem?.mp member
    have inside := (List.getElem?_eq_some_iff.mp there).1
    refine ⟨_, List.mem_map_of_mem (Chunk.single_mem_plan inside), ?_⟩
    have alone : ((replaceable file.tree grammar).drop index).take 1 = [target] := by
      rw [List.take_one, List.head?_drop, there]
      rfl
    dsimp only
    rw [alone]
    exact replacements_singleton arena member

end Whittle.Pass

namespace Whittle.Sample

/-- A number in a block, of which both have a shorter equivalent. -/
def nested : TrackedFile where
  data := [123, 49, 50, 59, 125]
  tree := { source := [123, 49, 50, 59, 125], nodes := #[
    { kind := "translation_unit", start := 0, stop := 5, children := #[1] },
    { kind := "compound_statement", start := 0, stop := 5, children := #[2], parent := some 0 },
    { kind := "number_literal", start := 1, stop := 3, parent := some 1 }] }
  grammar := "c"

/-- Though the block goes as a whole where both are in question, the number also goes alone. -/
theorem proposals_simplify_nested : nested.tree.IsArena ∧ ∃ grammar candidates,
    { project with files := [("a", nested)] }.grammarOf "a" = .ok grammar ∧
      Pass.replaceSimpler.proposals { project with files := [("a", nested)] } (some "a") 1 none =
        .ok candidates ∧
      ∃ candidate ∈ candidates, candidate.splices = [{ start := 1, stop := 3, replacement := [48] }] := by
  have arena : nested.tree.IsArena := by decide +kernel
  have known : ∃ grammar, { project with files := [("a", nested)] }.grammarOf "a" = .ok grammar ∧
      Pass.IsTarget nested.tree grammar (2, nested.tree.nodeAt 2, [48]) :=
    ⟨_, rfl, by decide, rfl, by decide +kernel, by decide +kernel⟩
  obtain ⟨grammar, known, target⟩ := known
  have found : Listing.get? [("a", nested)] "a" = some nested := rfl
  obtain ⟨-, targets, candidates, made, -, alone⟩ := Pass.proposals_simplify found arena known 1
  exact ⟨arena, grammar, candidates, known, made, alone _ ((targets _).mpr target)⟩

end Whittle.Sample
