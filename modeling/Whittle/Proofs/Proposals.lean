import Std.Data.HashSet.Lemmas
import Whittle.Proofs.Splice
import Whittle.Proofs.Transaction
import Whittle.Proofs.Tree
import Whittle.Reduction

/-!
What passes propose can be applied and makes a project smaller: the splices of a candidate
lie in its file, in order and apart, the files it removes are tracked, and fewer bytes are
left. A pass that works on a file takes its ranges from the tree or from the line starts
(`Candidate.Trims`), so this rests on trees being well formed and on nothing a position may
say.
-/

namespace Whittle

open List

variable {candidate : Candidate} {path : String} {size total offset block index : Nat}
  {file : TrackedFile} {parsers : Parsers} {chunk : Nat × Nat} {start : Option (Int × Int)}
  {tree : Tree} {first : Int} {groups : List Nat} {entry : Int × Nat} {target : Option String}

/-- The tracked files have well-formed trees of their bytes. -/
def Project.IsParsed (project : Project) : Prop :=
  ∀ name file, project.files.get? name = some file →
    file.tree.source = file.data ∧ file.tree.IsWellFormed

namespace Candidate

def leaves (candidate : Candidate) (name : String) (data : Bytes) : Bytes :=
  if name ∈ candidate.removed then []
  else if candidate.path = some name then (candidate.spliceInto data).toOption.getD data
  else data

/-- A candidate that can be applied to a project, changes something, and leaves fewer bytes. -/
structure Reduces (candidate : Candidate) (project : Project) : Prop where
  owned : candidate.splices ≠ [] → ∃ path, candidate.path = some path
  applies : ∀ path, candidate.path = some path → ∃ file data,
    project.files.get? path = some file ∧
      Splice.InOrder candidate.splices file.data.length ∧
      candidate.spliceInto file.data = .ok data
  tracked : ∀ name ∈ candidate.removed, project.tracks name = true
  changes : candidate.splices ≠ [] ∨ candidate.removed ≠ []
  smaller : Bytes.total (project.files.map fun file =>
    (candidate.leaves file.1 file.2.data).length) < project.size

/-- A candidate that shortens a file of so many bytes and does nothing else. -/
structure Trims (candidate : Candidate) (path : String) (size : Nat) : Prop where
  path : candidate.path = some path
  removed : candidate.removed = []
  splices : candidate.splices ≠ []
  inOrder : Splice.InOrder candidate.splices size
  shrinks : ∀ splice ∈ candidate.splices, splice.delta < 0

variable {project : Project}

/-- One range of a file gives way to something shorter. -/
theorem Trims.of_range {splice : Splice} (own : candidate.path = some path)
    (removed : candidate.removed = []) (only : candidate.splices = [splice])
    (start : 0 ≤ splice.start) (stop : splice.stop ≤ size)
    (shorter : (splice.replacement.length : Int) < splice.stop - splice.start) :
    candidate.Trims path size where
  path := own
  removed := removed
  splices := by simp [only]
  inOrder := only ▸ .singleton start (by omega) stop
  shrinks := by
    simp only [only, mem_singleton, forall_eq, Splice.delta]
    omega

/-- A candidate that shortens a tracked file makes the project smaller. -/
theorem Trims.reduces (proper : project.files.IsProper)
    (found : project.files.get? path = some file)
    (trims : candidate.Trims path file.data.length) : candidate.Reduces project := by
  obtain ⟨data, applied, shorter⟩ := trims.inOrder.applyAll trims.splices trims.shrinks
  have spliced : candidate.spliceInto file.data = .ok data := by
    rw [spliceInto, applied]
    rfl
  have leaves : ∀ name bytes, candidate.leaves name bytes =
      if name = path then (candidate.spliceInto bytes).toOption.getD bytes else bytes := by
    intro name bytes
    simp [leaves, trims.removed, trims.path, eq_comm]
  have here : candidate.leaves path file.data = data := by
    rw [leaves, if_pos rfl, spliced]
    rfl
  refine ⟨fun _ => ⟨path, trims.path⟩, ?_, by simp [trims.removed], .inl trims.splices, ?_⟩
  · intro other own
    cases trims.path.symm.trans own
    exact ⟨file, data, found, trims.inOrder, spliced⟩
  · refine Bytes.total_map_lt (path, file) (fun other member => ?_)
      (Listing.mem_of_get? found) (by rw [here]; exact shorter)
    by_cases same : other.1 = path
    · obtain ⟨name, other⟩ := other
      cases same
      cases (Listing.get?_of_mem proper member).symm.trans found
      rw [here]
      exact Nat.le_of_lt shorter
    · rw [leaves, if_neg same]

theorem reduces_of_removed (own : candidate.path = none)
    (splices : candidate.splices = []) (tracked : ∀ name ∈ candidate.removed, project.tracks name = true)
    (goes : path ∈ candidate.removed) (found : project.files.get? path = some file)
    (bytes : file.data ≠ []) : candidate.Reduces project := by
  have leaves : ∀ name data, candidate.leaves name data =
      if name ∈ candidate.removed then [] else data := by
    simp [leaves, own]
  refine ⟨fun some => absurd splices some, fun path same => ?_, tracked,
    .inr (ne_nil_of_mem goes), ?_⟩
  · cases own.symm.trans same
  · refine Bytes.total_map_lt (path, file) (fun other _ => ?_)
      (Listing.mem_of_get? found) ?_
    · rw [leaves]
      split
      · exact Nat.zero_le _
      · exact Nat.le_refl _
    · rw [leaves, if_pos goes]
      exact length_pos_iff.mpr bytes

theorem size_of_apply {buffers : Project.Buffers} (proper : project.files.IsProper)
    (applied : project.apply parsers candidate = .ok buffers) :
    buffers.size = Bytes.total (project.files.map fun file =>
      (candidate.leaves file.1 file.2.data).length) := by
  obtain ⟨change, spliced, contents⟩ := Project.get?_contents_of_apply applied
  rw [(Project.suits_of_apply applied).size]
  congr 1
  refine map_congr_left fun ⟨name, file⟩ member => ?_
  rw [Project.sizeAfter, contents, leaves]
  by_cases gone : name ∈ candidate.removed
  · simp [gone]
  · rw [if_neg gone, if_neg gone]
    rcases change with _ | ⟨path, data, tree⟩
    · -- nothing is spliced: the candidate has no splices, or no file for them
      by_cases own : candidate.path = some name
      · have none := Project.eq_none_of_spliced spliced own
        simp [own, spliceInto, none, Splice.applyAll, Splice.applyFrom, Except.toOption]
      · simp [own]
    · obtain ⟨own, -, -, old, had, becomes⟩ := Project.eq_some_of_spliced spliced
      rw [own]
      by_cases same : path = name
      · cases same
        rw [Project.get?_contents, Listing.get?_of_mem proper member] at had
        cases had
        simp [becomes, Except.toOption]
      · simp [same]

/-- A candidate that reduces a project fails only where the new bytes do not parse. -/
theorem Reduces.failure_of_apply {failure : Failure} (reduces : candidate.Reduces project)
    (failed : project.apply parsers candidate = .error failure) :
    ∃ path data, candidate.path = some path ∧
      project.reparse parsers path data = .error failure := by
  have removable : candidate.removed.find? (fun path => !project.tracks path) = none := by
    simpa [find?_eq_none] using reduces.tracked
  rw [Project.apply] at failed
  cases spliced : project.spliced parsers candidate with
  | ok change =>
    rw [spliced] at failed
    simp only [bind, Except.bind, removable] at failed
    cases failed
  | error reason =>
    rw [spliced] at failed
    cases failed
    unfold Project.spliced at spliced
    split at spliced
    · cases spliced
    · next path own =>
      obtain ⟨file, data, found, -, becomes⟩ := reduces.applies path own
      split at spliced
      · cases spliced
      · rw [Project.file_eq_ok_iff.mpr found] at spliced
        simp only [bind, Except.bind, becomes] at spliced
        split at spliced
        · next reason failed =>
          cases spliced
          exact ⟨path, data, own, failed⟩
        · cases spliced

end Candidate

theorem Chunk.of_mem_sweep
    (member : chunk ∈ sweep total size offset) : 0 < chunk.1 ∧ chunk.2 < total := by
  fun_induction sweep total size offset with
  | case1 offset inside ih =>
    rcases mem_cons.mp member with rfl | later
    · exact ⟨inside.2, inside.1⟩
    · exact ih later
  | case2 => cases member

theorem Chunk.of_mem_descend
    (member : chunk ∈ descend total size offset) : 0 < chunk.1 ∧ chunk.2 < total := by
  fun_induction descend total size offset with
  | case1 size offset ih =>
    rcases mem_append.mp member with here | smaller
    · exact of_mem_sweep here
    · split at smaller
      · next large => exact ih large smaller
      · cases smaller

/-- Wherever a plan begins, its chunks are not empty and begin in the run. -/
theorem Chunk.of_mem_plan (member : chunk ∈ plan total start) : 0 < chunk.1 ∧ chunk.2 < total := by
  rw [plan] at member
  split at member
  · cases member
  · exact of_mem_descend member

namespace Pass

variable {project : Project} {passIndex : Int} {position : Option (List Int)}

/-! ### Files -/

theorem exists_of_sizeOf_ne_zero {paths : List String} (bytes : sizeOf project paths ≠ 0) :
    ∃ path ∈ paths, ∃ file, project.files.get? path = some file ∧ file.data ≠ [] := by
  by_contra empty
  push Not at empty
  refine bytes (sum_eq_zero fun size member => ?_)
  obtain ⟨path, listed, rfl⟩ := mem_map.mp member
  split
  · next file found => rw [empty path listed file found]; rfl
  · rfl

theorem fileRemovals_reduce (member : candidate ∈ fileRemovals project passIndex position) :
    candidate.Reduces project := by
  obtain ⟨⟨size, offset⟩, -, made⟩ := mem_filterMap.mp member
  dsimp only at made
  split at made
  · cases made
  · next useful =>
    simp only [Bool.or_eq_true, decide_eq_true_eq, not_or] at useful
    obtain ⟨path, goes, file, found, bytes⟩ := exists_of_sizeOf_ne_zero useful.2
    cases made
    refine Candidate.reduces_of_removed rfl rfl (fun name member => ?_) goes found bytes
    have listed : name ∈ project.paths := mem_of_mem_drop (mem_of_mem_take member)
    rw [Project.paths, mem_sortNames, Listing.mem_names_iff] at listed
    exact listed

/-! ### Siblings -/

section Siblings

variable (wellFormed : tree.IsWellFormed)

include wellFormed

theorem siblingRange_inside {children : Array Nat} (visited : block ∈ tree.walk)
    (own : tree.childrenOf block = children.toList) (first last : Nat) (ahead : first ≤ last)
    (inside : last < children.size) :
    0 ≤ (siblingRange tree children first last).1 ∧
      (siblingRange tree children first last).2 ≤ tree.source.length := by
  obtain ⟨depth, below⟩ := Tree.exists_under_of_mem_walk visited
  have ranged : ∀ index (there : index < children.size),
      0 ≤ (tree.nodeAt children[index]).start ∧
        (tree.nodeAt children[index]).start ≤ (tree.nodeAt children[index]).stop ∧
        (tree.nodeAt children[index]).stop ≤ tree.source.length := fun index there =>
    (Tree.Under.step below (own ▸ Array.getElem_mem_toList there)).range_of_root wellFormed
  have firstIn := ranged first (by omega)
  simp only [siblingRange, Array.getElem?_eq_getElem (show first < children.size by omega),
    Array.getElem?_eq_getElem inside, Option.bind_some]
  refine ⟨firstIn.1, ?_⟩
  split
  · next more =>
    rw [Array.getElem?_eq_getElem more, Option.bind_some]
    exact Int.le_trans (ranged _ more).2.1 (ranged _ more).2.2
  · exact (ranged last inside).2.2

theorem siblingRemovals_trim {group : Int} (visited : block ∈ tree.walk)
    (member : candidate ∈ siblingRemovals tree path passIndex group block start) :
    candidate.Trims path tree.source.length := by
  obtain ⟨⟨size, offset⟩, planned, made⟩ := mem_filterMap.mp member
  obtain ⟨some, inside⟩ := Chunk.of_mem_plan planned
  dsimp only at some inside made
  change offset < (tree.nodeAt block).children.size at inside
  have ranged := siblingRange_inside wellFormed visited (tree.childrenOf_eq block) offset
    (min (offset + size) (tree.nodeAt block).children.size - 1) (by omega) (by omega)
  split at made
  · cases made
  · next forward =>
    cases made
    exact .of_range rfl rfl rfl ranged.1 ranged.2 (by simp only [length_nil]; omega)

end Siblings

theorem mem_of_mem_numbered (member : entry ∈ numbered first groups) : entry.2 ∈ groups := by
  induction groups generalizing first with
  | nil => cases member
  | cons block rest ih =>
    rcases mem_cons.mp member with rfl | later
    · exact mem_cons_self
    · exact mem_cons_of_mem _ (ih later)

/-- Whatever number comes first, the groups are among those there are. -/
theorem mem_of_mem_groupsFrom {found : List (Int × Nat)}
    (from_ : groupsFrom groups first = .ok found) (member : entry ∈ found) :
    entry.2 ∈ groups := by
  rw [groupsFrom] at from_
  split at from_
  · cases from_
    exact mem_of_mem_drop (mem_of_mem_numbered member)
  · split at from_
    · cases from_
      rcases mem_append.mp member with behind | again
      · exact mem_of_mem_drop (mem_of_mem_numbered behind)
      · exact mem_of_mem_numbered again
    · cases from_

theorem groupsFrom_of_nonneg (groups : List Nat) (natural : 0 ≤ first) :
    groupsFrom groups first = .ok (numbered first (groups.drop first.toNat)) :=
  if_pos natural

/-! ### Replacements -/

section Replacements

def replacementAt? (tree : Tree) (grammar : Grammar) (index : Nat) : Option Target := do
  let node ← tree.nodes[index]?
  let text := Signed.extract tree.source.toArray node.start node.stop
  if text.all Bytes.isBlank then none
  else
    let replacement ← (grammar.kind node.kind).simpler.find? (·.length < text.size)
    return (index, node, replacement)

theorem replaceable_eq (tree : Tree) (grammar : Grammar) :
    replaceable tree grammar = tree.walk.filterMap (replacementAt? tree grammar) :=
  rfl

/-- Whether a node stands below one of some others. -/
def isCovered (tree : Tree) (chunk : List Target) (target : Target) : Bool :=
  tree.anyAncestor (Std.HashSet.ofList (chunk.map fun target => (target.1 : Int))).contains target.1

/-- The nodes among some that stand below no other of them. -/
def outer (tree : Tree) (chunk : List Target) : List Target :=
  chunk.filter fun target => !isCovered tree chunk target

def spliceOf (target : Target) : Splice :=
  { start := target.2.1.start, stop := target.2.1.stop, replacement := target.2.2 }

variable {grammar : Grammar} {chunk : List Target} {target other : Target}

theorem chosen_iff : (Std.HashSet.ofList (chunk.map fun target => (target.1 : Int))).contains index =
    true ↔ ∃ target ∈ chunk, target.1 = index := by
  rw [Std.HashSet.contains_ofList, contains_iff_mem, mem_map]
  simp only [Int.ofNat_inj]

theorem replacementAt?_eq_some_iff (inside : index < tree.nodes.size) :
    replacementAt? tree grammar index = some target ↔
      target.1 = index ∧ target.2.1 = tree.nodeAt index ∧
        (tree.text target.2.1).all Bytes.isBlank = false ∧
        (grammar.kind target.2.1.kind).simpler.find? (·.length < (tree.text target.2.1).length) =
          some target.2.2 := by
  have text : Signed.extract tree.source.toArray (tree.nodeAt index).start (tree.nodeAt index).stop =
      (tree.text (tree.nodeAt index)).toArray :=
    Array.toList_inj.mp (Signed.toList_extract _ _ _)
  simp only [replacementAt?, Tree.nodes_getElem? inside, Option.bind_eq_bind, Option.bind_some, text,
    size_toArray]
  cases blank : (tree.text (tree.nodeAt index)).all Bytes.isBlank <;>
    simp [Option.bind_eq_some_iff] <;> grind

theorem mem_outer : target ∈ outer tree chunk ↔
    target ∈ chunk ∧ isCovered tree chunk target = false := by
  simp [outer]

variable (wellFormed : tree.IsWellFormed)

include wellFormed

/-- A node that is replaced is longer than what comes in its place. -/
theorem of_replacementAt? (visited : index ∈ tree.walk)
    (made : replacementAt? tree grammar index = some target) :
    target.1 = index ∧ target.2.1 = tree.nodeAt index ∧
      (target.2.2.length : Int) < target.2.1.stop - target.2.1.start := by
  obtain ⟨depth, below⟩ := Tree.exists_under_of_mem_walk visited
  have ranged := below.range_of_root wellFormed
  obtain ⟨same, node, -, found⟩ :=
    (replacementAt?_eq_some_iff (wellFormed.lt_size_of_mem_walk visited)).mp made
  have shorter := find?_some found
  rw [node] at shorter ⊢
  simp only [Tree.text, Signed.slice, length_drop, length_take, Signed.clamp,
    decide_eq_true_eq] at shorter
  exact ⟨same, rfl, by omega⟩

/-- A node to be replaced is one of the walk, and longer than what comes in its place. -/
theorem of_mem_replaceable (member : target ∈ replaceable tree grammar) :
    target.1 ∈ tree.walk ∧ target.2.1 = tree.nodeAt target.1 ∧ (spliceOf target).delta < 0 := by
  obtain ⟨index, visited, made⟩ := mem_filterMap.mp member
  obtain ⟨rfl, node, shorter⟩ := of_replacementAt? wellFormed visited made
  refine ⟨visited, node, ?_⟩
  simp only [spliceOf, Splice.delta]
  omega

/-- Of two nodes to be replaced the second stands below the first or starts after its end. -/
theorem pairwise_replaceable : (replaceable tree grammar).Pairwise fun left right =>
      (∃ depth < tree.nodes.size, tree.Under left.1 (depth + 1) right.1) ∨
        (tree.nodeAt left.1).stop ≤ (tree.nodeAt right.1).start := by
  rw [replaceable_eq, pairwise_filterMap]
  refine wellFormed.pairwise_walk.imp_of_mem ?_
  intro index other visited visited' related left made right made'
  rw [(of_replacementAt? wellFormed visited made).1, (of_replacementAt? wellFormed visited' made').1]
  exact related

theorem isCovered_of_under {depth : Nat} (listed : other ∈ chunk) (near : depth < tree.nodes.size)
    (below : tree.Under other.1 (depth + 1) target.1) : isCovered tree chunk target = true :=
  below.anyAncestorUpTo wellFormed (chosen_iff.mpr ⟨other, listed, rfl⟩) near

/-- Each of some nodes of the walk stands below one of them, or is one, that stands below no other. -/
theorem exists_mem_outer (walked : ∀ target ∈ chunk, target.1 ∈ tree.walk) (member : target ∈ chunk) :
    ∃ top ∈ outer tree chunk, ∃ depth, tree.Under top.1 depth target.1 := by
  obtain ⟨depth, below⟩ := Tree.exists_under_of_mem_walk (walked target member)
  -- what covers a node is nearer to the root
  induction depth using Nat.strongRecOn generalizing target with
  | ind depth ih =>
    cases covered : isCovered tree chunk target with
    | false => exact ⟨target, mem_outer.mpr ⟨member, covered⟩, 0, .here⟩
    | true =>
      obtain ⟨top, links, chosen, above⟩ := wellFormed.under_of_anyAncestorUpTo
        (wellFormed.lt_size_of_mem_walk (walked target member)) covered
      obtain ⟨other, listed, rfl⟩ := chosen_iff.mp chosen
      obtain ⟨rest, nearer, rfl⟩ := below.split wellFormed above
      obtain ⟨top, outermost, depth, higher⟩ := ih rest (by omega) listed nearer
      exact ⟨top, outermost, _, higher.trans above⟩

section Chunk

variable (sub : chunk.Sublist (replaceable tree grammar))

include sub

theorem spliceOf_inside (member : target ∈ chunk) :
    0 ≤ (spliceOf target).start ∧ (spliceOf target).start ≤ (spliceOf target).stop ∧
      (spliceOf target).stop ≤ tree.source.length := by
  obtain ⟨visited, node, -⟩ := of_mem_replaceable wellFormed (sub.subset member)
  obtain ⟨depth, below⟩ := Tree.exists_under_of_mem_walk visited
  simp only [spliceOf, node]
  exact below.range_of_root wellFormed

/-- Nodes of which none stands below another come one after the other. -/
theorem pairwise_outer : ((outer tree chunk).map spliceOf).Pairwise fun left right =>
    left.stop ≤ right.start := by
  have ordered := (pairwise_replaceable wellFormed).sublist sub
  refine pairwise_map.mpr ((ordered.sublist filter_sublist).imp_of_mem ?_)
  intro left right member member' related
  obtain ⟨listed, -⟩ := mem_outer.mp member
  obtain ⟨listed', free⟩ := mem_outer.mp member'
  rcases related with ⟨depth, near, below⟩ | after
  · cases (isCovered_of_under wellFormed listed near below).symm.trans free
  · have node := (of_mem_replaceable wellFormed (sub.subset listed)).2.1
    have node' := (of_mem_replaceable wellFormed (sub.subset listed')).2.1
    simpa only [spliceOf, node, node'] using after

theorem replacements_eq_map : replacements tree chunk = (outer tree chunk).map spliceOf := by
  refine mergeSort_of_pairwise ((pairwise_outer wellFormed sub).imp_of_mem ?_)
  intro left right member _ after
  obtain ⟨target, listed, rfl⟩ := mem_map.mp member
  have inside := spliceOf_inside wellFormed sub (mem_outer.mp listed).1
  exact decide_eq_true (Int.le_trans inside.2.1 after)

theorem replacements_trim (own : candidate.path = some path)
    (removed : candidate.removed = []) (splices : candidate.splices = replacements tree chunk)
    (nonempty : chunk ≠ []) : candidate.Trims path tree.source.length := by
  rw [replacements_eq_map wellFormed sub] at splices
  refine ⟨own, removed, ?_, splices ▸ ⟨pairwise_outer wellFormed sub, ?_⟩, splices ▸ ?_⟩
  · obtain ⟨first, member⟩ := exists_mem_of_ne_nil chunk nonempty
    obtain ⟨target, listed, -⟩ := exists_mem_outer wellFormed
      (fun target member => (of_mem_replaceable wellFormed (sub.subset member)).1) member
    rw [splices]
    exact ne_nil_of_mem (mem_map_of_mem listed)
  · intro splice member
    obtain ⟨target, listed, rfl⟩ := mem_map.mp member
    exact spliceOf_inside wellFormed sub (mem_outer.mp listed).1
  · intro splice member
    obtain ⟨target, listed, rfl⟩ := mem_map.mp member
    exact (of_mem_replaceable wellFormed (sub.subset (mem_outer.mp listed).1)).2.2

end Chunk

end Replacements

/-! ### Lines -/

theorem pairwise_breaks (offset : Nat) (data : Bytes) :
    (Bytes.breaks offset data).Pairwise (· < ·) ∧ ∀ start ∈ Bytes.breaks offset data, offset < start := by
  induction data generalizing offset with
  | nil => exact ⟨.nil, by simp [Bytes.breaks]⟩
  | cons byte rest ih =>
    obtain ⟨ordered, ahead⟩ := ih (offset + 1)
    rw [Bytes.breaks]
    split
    · refine ⟨pairwise_cons.mpr ⟨ahead, ordered⟩, fun start member => ?_⟩
      rcases mem_cons.mp member with rfl | later
      · omega
      · have := ahead start later
        omega
    · refine ⟨ordered, fun start member => ?_⟩
      have := ahead start member
      omega

theorem pairwise_lineStarts (data : Bytes) : data.lineStarts.Pairwise (· < ·) :=
  pairwise_cons.mpr ⟨(pairwise_breaks 0 data).2, (pairwise_breaks 0 data).1⟩

def startsOfLines (data : Bytes) : List Nat :=
  data.lineStarts.filter (· < data.length)

theorem startsOfLines_lt (data : Bytes) (inside : index < (startsOfLines data).length) :
    (startsOfLines data).getD index data.length < (startsOfLines data).getD (index + 1) data.length := by
  have ordered : (startsOfLines data).Pairwise (· < ·) := (pairwise_lineStarts data).filter _
  have bounded : ∀ start ∈ startsOfLines data, start < data.length := by simp [startsOfLines]
  simp only [getD_eq_getElem?_getD, getElem?_eq_getElem inside, Option.getD_some]
  by_cases more : index + 1 < (startsOfLines data).length
  · rw [getElem?_eq_getElem more]
    exact pairwise_iff_getElem.mp ordered _ _ inside more (Nat.lt_succ_self _)
  · rw [getElem?_eq_none (by omega)]
    exact bounded _ (getElem_mem inside)

theorem startsOfLines_mono (data : Bytes) :
    Monotone fun index => (startsOfLines data).getD index data.length := by
  refine monotone_nat_of_le_succ fun index => ?_
  by_cases inside : index < (startsOfLines data).length
  · exact Nat.le_of_lt (startsOfLines_lt data inside)
  · simp [show (startsOfLines data).length ≤ index by omega,
      show (startsOfLines data).length ≤ index + 1 by omega]

/-- A run of lines is not empty and lies in the file. -/
theorem lines_inside (data : Bytes) (positive : 0 < size)
    (inside : offset < (startsOfLines data).length) :
    (startsOfLines data).getD offset data.length <
        (startsOfLines data).getD (offset + size) data.length ∧
      (startsOfLines data).getD (offset + size) data.length ≤ data.length := by
  have rising := startsOfLines_mono data
  refine ⟨(startsOfLines_lt data inside).trans_le (rising (Nat.add_le_add_left positive offset)), ?_⟩
  simpa using rising (Nat.le_add_right (offset + size) (startsOfLines data).length)

/-- The removal of a run of lines ends where the next line starts. -/
theorem lines_splice {starts : List Nat} (positive : 0 < size) (inside : offset < starts.length) :
    ({ start := starts.toArray.getD offset 0
       stop := ((starts.toArray.extract 1 starts.toArray.size).push total).getD
        (min (offset + size) starts.toArray.size - 1) 0 } : Splice) =
      { start := (starts.getD offset total : Nat), stop := (starts.getD (offset + size) total : Nat) } := by
  simp only [Splice.mk.injEq, Int.natCast_inj, and_true, Array.getD_eq_getD_getElem?,
    getD_eq_getElem?_getD, Array.getElem?_push, Array.size_extract, size_toArray]
  refine ⟨by simp [inside], ?_⟩
  by_cases more : offset + size < starts.length
  · rw [if_neg (by omega), Array.getElem?_extract, if_pos (by simp; omega),
      show 1 + (min (offset + size) starts.length - 1) = offset + size by omega]
    simp [more]
  · rw [if_pos (by omega), getElem?_eq_none (by omega)]
    rfl

/-! ### All passes -/

section File

variable {candidates : List Candidate} (found : Listing.get? project.files path = some file)

include found

theorem lineRemovals_trim (made : lineRemovals project path passIndex position = .ok candidates)
    (member : candidate ∈ candidates) : candidate.Trims path file.data.length := by
  rw [lineRemovals, Project.file_eq_ok_iff.mpr found] at made
  cases made
  obtain ⟨⟨size, offset⟩, planned, rfl⟩ := mem_map.mp member
  obtain ⟨some, inside⟩ := Chunk.of_mem_plan planned
  have ranged := lines_inside file.data some inside
  exact .of_range rfl rfl (congrArg (· :: []) (lines_splice some inside)) (Int.natCast_nonneg _)
    (Int.ofNat_le.mpr ranged.2) (Int.sub_pos_of_lt (Int.ofNat_lt.mpr ranged.1))

theorem blankRemovals_trim (made : blankRemovals project path passIndex = .ok candidates)
    (member : candidate ∈ candidates) : candidate.Trims path file.data.length := by
  rw [blankRemovals, Project.file_eq_ok_iff.mpr found] at made
  simp only [bind, Except.bind] at made
  split at made
  · cases made
    cases member
  · next shorter =>
    cases made
    cases mem_singleton.mp member
    exact .of_range rfl rfl rfl (Int.le_refl _) (Int.le_refl _) (by dsimp only; omega)

variable (parsed : project.IsParsed)

include parsed

theorem blockRemovals_trim (made : blockRemovals project path passIndex position = .ok candidates)
    (member : candidate ∈ candidates) : candidate.Trims path file.data.length := by
  obtain ⟨source, wellFormed⟩ := parsed path file found
  obtain ⟨other, asked, made⟩ := bind_eq_ok_iff.mp made
  cases found.symm.trans (Project.file_eq_ok_iff.mp asked)
  obtain ⟨grammar, -, made⟩ := bind_eq_ok_iff.mp made
  obtain ⟨groups, chosen, made⟩ := bind_eq_ok_iff.mp made
  cases made
  obtain ⟨⟨group, block⟩, listed, member⟩ := mem_flatMap.mp member
  have visited : block ∈ file.tree.walk := (mem_filter.mp (mem_of_mem_groupsFrom chosen listed)).1
  rw [← source]
  exact siblingRemovals_trim wellFormed visited member

theorem simplifications_trim
    (made : simplifications project path passIndex position = .ok candidates)
    (member : candidate ∈ candidates) : candidate.Trims path file.data.length := by
  obtain ⟨source, wellFormed⟩ := parsed path file found
  obtain ⟨other, asked, made⟩ := bind_eq_ok_iff.mp made
  cases found.symm.trans (Project.file_eq_ok_iff.mp asked)
  obtain ⟨grammar, -, made⟩ := bind_eq_ok_iff.mp made
  cases made
  obtain ⟨⟨size, offset⟩, planned, rfl⟩ := mem_map.mp member
  obtain ⟨some, inside⟩ := Chunk.of_mem_plan planned
  have inside : offset < (replaceable file.tree grammar).length := by simpa using inside
  let chunk := ((replaceable file.tree grammar).drop offset).take (offset + size - offset)
  have same : ((replaceable file.tree grammar).toArray.extract offset (offset + size)).toList = chunk := by
    rw [Array.toList_extract, extract_eq_take_drop]
  have sub : chunk.Sublist (replaceable file.tree grammar) :=
    (take_sublist _ _).trans (drop_sublist _ _)
  have nonempty : chunk ≠ [] := by
    rw [← length_pos_iff, length_take, length_drop]
    omega
  rw [← source]
  exact replacements_trim wellFormed sub rfl rfl (congrArg (replacements file.tree) same) nonempty

end File

theorem reduces_of_mem (pass : Pass) {candidates : List Candidate}
    (proper : project.files.IsProper) (parsed : project.IsParsed)
    (made : pass.proposals project target passIndex position = .ok candidates)
    (member : candidate ∈ candidates) : candidate.Reduces project := by
  have tracked : ∀ {path : String} {made : TrackedFile → Except Failure (List Candidate)},
      (project.file path >>= made) = .ok candidates →
      ∃ file, project.files.get? path = some file := by
    intro path made some
    obtain ⟨file, asked, -⟩ := bind_eq_ok_iff.mp some
    exact ⟨file, Project.file_eq_ok_iff.mp asked⟩
  cases pass with
  | removeFiles =>
    cases made
    exact fileRemovals_reduce member
  | deleteSiblings =>
    cases target with
    | none => cases made
    | some path =>
      obtain ⟨file, found⟩ := tracked made
      exact (blockRemovals_trim found parsed made member).reduces proper found
  | replaceSimpler =>
    cases target with
    | none => cases made
    | some path =>
      obtain ⟨file, found⟩ := tracked made
      exact (simplifications_trim found parsed made member).reduces proper found
  | removeLines =>
    cases target with
    | none => cases made
    | some path =>
      obtain ⟨file, found⟩ := tracked made
      exact (lineRemovals_trim found made member).reduces proper found
  | discardWhitespace =>
    cases target with
    | none => cases made
    | some path =>
      obtain ⟨file, found⟩ := tracked made
      exact (blankRemovals_trim found made member).reduces proper found

theorem groupAt_nonneg (natural : ∀ numbers ∈ position, ∀ number ∈ numbers, 0 ≤ number) :
    0 ≤ (groupAt position).1 := by
  unfold groupAt
  split
  · next group size offset => exact natural _ rfl group mem_cons_self
  · exact Int.le_refl _

theorem exists_proposals (pass : Pass)
    (natural : ∀ numbers ∈ position, ∀ number ∈ numbers, 0 ≤ number)
    (aimed : target ∈ Session.targets pass project)
    (known : ∀ path ∈ target, ∃ grammar, project.grammarOf path = .ok grammar) :
    ∃ candidates, pass.proposals project target passIndex position = .ok candidates := by
  by_cases whole : pass = .removeFiles
  · subst whole
    exact ⟨_, rfl⟩
  · have filed : target ∈ project.paths.map some := by
      cases pass with
      | removeFiles => exact absurd rfl whole
      | _ => exact aimed
    obtain ⟨path, -, rfl⟩ := mem_map.mp filed
    obtain ⟨grammar, knows⟩ := known path rfl
    obtain ⟨file, asked, -⟩ := bind_eq_ok_iff.mp knows
    cases pass with
    | removeFiles => exact absurd rfl whole
    | deleteSiblings =>
      simp only [proposals, blockRemovals, asked, knows, bind, Except.bind,
        groupsFrom_of_nonneg _ (groupAt_nonneg natural)]
      exact ⟨_, rfl⟩
    | replaceSimpler =>
      simp only [proposals, simplifications, asked, knows, bind, Except.bind]
      exact ⟨_, rfl⟩
    | removeLines =>
      simp only [proposals, lineRemovals, asked, bind, Except.bind]
      exact ⟨_, rfl⟩
    | discardWhitespace =>
      simp only [proposals, blankRemovals, asked, bind, Except.bind]
      split <;> exact ⟨_, rfl⟩

/-- Every candidate can be applied and makes the project smaller. The trees of the project are well
formed. Then, whatever the target of a pass and the position that it begins from, each candidate that
it proposes reduces the project: applying it fails only if the new bytes do not parse, and yields
fewer bytes otherwise. For the targets that the pass goes through, if their grammars are known, and
for positions of natural numbers, it does propose its candidates. -/
theorem proposals_reduce (pass : Pass) (proper : Listing.IsProper project.files)
    (parsed : project.IsParsed) (target : Option String) (passIndex : Int)
    (position : Option (List Int))
    (natural : ∀ numbers ∈ position, ∀ number ∈ numbers, 0 ≤ number) :
    (∀ candidates, pass.proposals project target passIndex position = .ok candidates →
      ∀ candidate ∈ candidates, candidate.Reduces project ∧ ∀ parsers,
        (∀ buffers, project.apply parsers candidate = .ok buffers → buffers.size < project.size) ∧
        ∀ failure, project.apply parsers candidate = .error failure →
          ∃ path data, candidate.path = some path ∧
            project.reparse parsers path data = .error failure) ∧
    (target ∈ Session.targets pass project →
      (∀ path ∈ target, ∃ grammar, project.grammarOf path = .ok grammar) →
      ∃ candidates, pass.proposals project target passIndex position = .ok candidates) := by
  refine ⟨fun candidates made candidate member => ?_, exists_proposals pass natural⟩
  have reduces := reduces_of_mem pass proper parsed made member
  refine ⟨reduces, fun parsers => ⟨fun buffers applied => ?_, fun failure => reduces.failure_of_apply⟩⟩
  rw [Candidate.size_of_apply proper applied]
  exact reduces.smaller

end Pass

/-! ### Candidates for the small project -/

namespace Sample

theorem project_proper : project.files.IsProper :=
  pairwise_singleton _ _

theorem project_parsed : project.IsParsed := by
  intro name file found
  obtain ⟨rfl, rfl⟩ : "a" = name ∧ fileOf lines = file := by
    simpa [project, Listing.get?_cons] using found
  exact ⟨rfl, by decide +kernel⟩

/-- A position that is left from a longer file still names siblings to remove. -/
theorem proposals_reduce_lines :
    ∃ candidates, Pass.deleteSiblings.proposals project (some "a") 1 (some [0, 9, 1]) =
        .ok candidates ∧
      candidates.map (·.splices) =
        [[{ start := 2, stop := 3 }], [{ start := 0, stop := 2 }], [{ start := 2, stop := 3 }]] ∧
      ∀ candidate ∈ candidates, candidate.Reduces project := by
  have natural : ∀ numbers ∈ some [0, 9, 1], ∀ number ∈ numbers, (0 : Int) ≤ number := by
    decide
  have aimed : some "a" ∈ Session.targets .deleteSiblings project := by
    decide
  obtain ⟨reduce, exist⟩ := Pass.proposals_reduce .deleteSiblings project_proper project_parsed
    (some "a") 1 (some [0, 9, 1]) natural
  obtain ⟨candidates, made⟩ := exist aimed (by simpa using ⟨_, rfl⟩)
  have spliced : (Pass.deleteSiblings.proposals project (some "a") 1 (some [0, 9, 1])).map
      (·.map (·.splices)) =
        .ok [[{ start := 2, stop := 3 }], [{ start := 0, stop := 2 }], [{ start := 2, stop := 3 }]] := by
    decide +kernel
  rw [made] at spliced
  exact ⟨candidates, made, Except.ok.inj spliced, fun candidate member =>
    (reduce candidates made candidate member).1⟩

end Sample
end Whittle
