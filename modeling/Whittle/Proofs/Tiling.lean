import Mathlib.Order.Monotone.Basic
import Whittle.Proofs.Levels

/-!
The ranges that are deleted at one size of a plan tile what is deleted at the boldest size. A run of
items is cut where its chunks begin: a chunk reaches from the start of its first item to the start
of the first item after it, or to the end of the run (`Chunk.range`). Siblings and lines differ in
what is an item and where the run ends, and in nothing else.
-/

namespace Whittle

open List

variable {size offset index block : Nat} {chunk : Nat × Nat} {path : String} {file : TrackedFile}
  {passIndex : Int} {candidates : List Candidate}

/-- Ranges that follow one another and reach together from one place to another. -/
def Tiles (start : Int) : List (Int × Int) → Int → Prop
  | [], stop => start = stop
  | range :: rest, stop => range.1 = start ∧ start ≤ range.2 ∧ Tiles range.2 rest stop

namespace Chunk

def level (total size : Nat) : List (Nat × Nat) :=
  (plan total none).filter (·.1 = size)

/-- What a chunk of items covers, where they start and the last of them ends. -/
def range (starts : List Int) (stop : Int) (chunk : Nat × Nat) : Int × Int :=
  (starts.getD chunk.2 stop, starts.getD (chunk.2 + chunk.1) stop)

variable {total : Nat}

theorem size_of_mem_sweep (member : chunk ∈ sweep total size offset) : chunk.1 = size := by
  obtain ⟨before, after, split⟩ := append_of_mem member
  exact (sweep_rest split).1

theorem filter_descend (member : chunk ∈ descend total size offset) :
    (descend total size offset).filter (·.1 = chunk.1) =
      sweep total chunk.1 (if chunk.1 = size then offset else 0) := by
  fun_induction descend total size offset with
  | case1 size offset ih =>
    have swept : ∀ other ∈ sweep total size offset, other.1 = size := fun _ => size_of_mem_sweep
    have smaller : ∀ other ∈ (if _ : 1 < size then descend total ((size + 1) / 2) 0 else []),
        other.1 < size := by
      intro other listed
      split at listed
      · have := size_le_of_mem_descend listed
        omega
      · cases listed
    rw [filter_append]
    rcases mem_append.mp member with here | later
    · rw [swept chunk here, if_pos rfl, filter_eq_self.mpr (by simpa using swept),
        filter_eq_nil_iff.mpr, append_nil]
      intro other listed
      simpa using Nat.ne_of_lt (smaller other listed)
    · have less := smaller chunk later
      rw [filter_eq_nil_iff.mpr, nil_append, if_neg (Nat.ne_of_lt less)]
      · split at later
        · next large => rw [dif_pos large, ih large later, ite_self]
        · cases later
      · intro other listed
        rw [swept other listed]
        simpa using Nat.ne_of_gt less

theorem level_eq (planned : chunk ∈ plan total none) : level total chunk.1 = sweep total chunk.1 0 := by
  rw [plan] at planned
  split at planned
  · cases planned
  · next items =>
    rw [level, plan, if_neg items]
    exact (filter_descend planned).trans (by rw [origin, ite_self])

theorem single_mem_plan (inside : index < total) : (1, index) ∈ plan total none := by
  have nonempty : 0 < total := by omega
  rw [plan, if_neg (by omega)]
  exact (suffix_descend nonempty).subset ((mem_row Nat.one_pos).mpr ⟨Nat.one_dvd _, inside⟩)

section Items

variable {starts : List Int} {stop : Int}
  (rising : ∀ index, starts.getD index stop ≤ starts.getD (index + 1) stop)

include rising

theorem tiles_sweep (positive : 0 < size) (offset : Nat) : Tiles (starts.getD offset stop)
    ((sweep starts.length size offset).map (range starts stop)) stop := by
  fun_induction sweep starts.length size offset with
  | case1 offset inside ih =>
    exact ⟨rfl, monotone_nat_of_le_succ rising (Nat.le_add_right _ _), ih⟩
  | case2 offset outside => simp [Tiles, show starts.length ≤ offset by omega]

theorem tiles_level (planned : chunk ∈ plan starts.length none) :
    Tiles (starts.getD 0 stop) ((level starts.length chunk.1).map (range starts stop)) stop := by
  rw [level_eq planned]
  exact tiles_sweep rising (of_mem_plan planned).1 0

end Items
end Chunk

/-- A candidate deletes a range of a file and does nothing else; it has a position of its pass. -/
def Candidate.Deletes (candidate : Candidate) (path : String) (range : Int × Int)
    (position : List Int) : Prop :=
  candidate.path = some path ∧ candidate.removed = [] ∧
    candidate.splices = [{ start := range.1, stop := range.2 }] ∧
    candidate.bookmark.position = some position

namespace Pass

/-- Some candidates delete the chunks of a run of items in a file at every size of the plan: the
ranges of each size tile the run, each range that is not empty is deleted by a candidate which does
nothing else, and every item is a chunk of its own. -/
structure CutsUp (candidates : List Candidate) (path : String) (numbers : List Int)
    (starts : List Int) (stop : Int) : Prop where
  tiles : ∀ chunk ∈ Chunk.plan starts.length none, Tiles (starts.getD 0 stop)
    ((Chunk.level starts.length chunk.1).map (Chunk.range starts stop)) stop
  deleted : ∀ chunk ∈ Chunk.plan starts.length none,
    (Chunk.range starts stop chunk).1 < (Chunk.range starts stop chunk).2 →
    ∃ candidate ∈ candidates, candidate.Deletes path (Chunk.range starts stop chunk)
      (numbers ++ [(chunk.1 : Int), (chunk.2 : Int)])
  single : ∀ index < starts.length, (1, index) ∈ Chunk.plan starts.length none

/-! ### Siblings -/

theorem mem_numbered (first : Int) {blocks : List Nat}
    (found : blocks[index]? = some block) : (first + index, block) ∈ numbered first blocks := by
  induction blocks generalizing first index with
  | nil => cases found
  | cons other rest ih =>
    rw [numbered, mem_cons]
    cases index with
    | zero =>
      cases found
      exact .inl (by simp)
    | succ index =>
      refine .inr ?_
      have member := ih (first + 1) found
      rwa [show first + 1 + (index : Int) = first + (index + 1 : Nat) by omega] at member

section Siblings

def startsOf (tree : Tree) (block : Nat) : List Int :=
  (tree.childrenOf block).map fun child => (tree.nodeAt child).start

/-- Where the last child of a node ends. -/
def stopOf (tree : Tree) (block : Nat) : Int :=
  (((tree.childrenOf block).getLast?).map fun child => (tree.nodeAt child).stop).getD 0

/-- The children of a chunk lie in its range, and no other child shares a byte with it. -/
def KeepsApart (tree : Tree) (block : Nat) : Prop :=
  ∀ chunk index child, (tree.childrenOf block)[index]? = some child →
    let range := Chunk.range (startsOf tree block) (stopOf tree block) chunk
    if chunk.2 ≤ index ∧ index < chunk.2 + chunk.1 then
      range.1 ≤ (tree.nodeAt child).start ∧ (tree.nodeAt child).stop ≤ range.2
    else
      (tree.nodeAt child).stop ≤ range.1 ∨ range.2 ≤ (tree.nodeAt child).start

variable {tree : Tree} {child : Nat}

theorem startsOf_getD (found : (tree.childrenOf block)[index]? = some child) :
    (startsOf tree block).getD index (stopOf tree block) = (tree.nodeAt child).start := by
  simp [startsOf, found]

theorem stopOf_eq (found : (tree.childrenOf block)[index]? = some child)
    (last : (tree.childrenOf block).length ≤ index + 1) :
    stopOf tree block = (tree.nodeAt child).stop := by
  have := (List.getElem?_eq_some_iff.mp found).1
  rw [stopOf, List.getLast?_eq_getElem?, show (tree.childrenOf block).length - 1 = index by omega, found]
  rfl

theorem siblingRange_eq (positive : 0 < size) (inside : offset < (tree.childrenOf block).length) :
    siblingRange tree (tree.nodeAt block).children offset
        (min (offset + size) (tree.childrenOf block).length - 1) =
      Chunk.range (startsOf tree block) (stopOf tree block) (size, offset) := by
  have node : ∀ index child : Nat, (tree.childrenOf block)[index]? = some child →
      ((((tree.nodeAt block).children[index]?).bind (tree.nodes[·]?)).getD default) = tree.nodeAt child := by
    intro index child found
    rw [← Array.getElem?_toList, ← tree.childrenOf_eq, found]
    rfl
  have found := getElem?_eq_getElem inside
  obtain ⟨last, ends⟩ : ∃ last, min (offset + size) (tree.childrenOf block).length = last + 1 :=
    ⟨min (offset + size) (tree.childrenOf block).length - 1, by omega⟩
  simp only [siblingRange, Chunk.range, ← Array.length_toList, ← tree.childrenOf_eq, node _ _ found,
    startsOf_getD found, ends, Nat.add_sub_cancel, Prod.mk.injEq, true_and]
  split
  · next more =>
    have next := getElem?_eq_getElem more
    rw [node _ _ next, ← startsOf_getD next, show last + 1 = offset + size by omega]
  · have final := getElem?_eq_getElem (show last < (tree.childrenOf block).length by omega)
    rw [node _ _ final, ← stopOf_eq final (by omega)]
    simp [startsOf, show (tree.childrenOf block).length ≤ offset + size by omega]

theorem exists_siblingRemoval (path : String) (passIndex group : Int)
    (planned : chunk ∈ Chunk.plan (tree.childrenOf block).length none)
    (wide : (Chunk.range (startsOf tree block) (stopOf tree block) chunk).1 <
      (Chunk.range (startsOf tree block) (stopOf tree block) chunk).2) :
    ∃ candidate ∈ siblingRemovals tree path passIndex group block none,
      candidate.Deletes path (Chunk.range (startsOf tree block) (stopOf tree block) chunk)
        [group, chunk.1, chunk.2] := by
  obtain ⟨size, offset⟩ := chunk
  obtain ⟨positive, begins⟩ := Chunk.of_mem_plan planned
  rw [← siblingRange_eq positive begins] at wide ⊢
  rw [tree.childrenOf_eq, Array.length_toList] at planned wide ⊢
  exact ⟨_, mem_filterMap.mpr ⟨(size, offset), planned, if_neg (Int.not_le.mpr wide)⟩,
    rfl, rfl, rfl, rfl⟩

variable (wellFormed : tree.IsWellFormed)

include wellFormed

/-- A child ends where the next starts, or before. -/
theorem stop_le_getD (found : (tree.childrenOf block)[index]? = some child) :
    (tree.nodeAt child).stop ≤ (startsOf tree block).getD (index + 1) (stopOf tree block) := by
  have here := (List.getElem?_eq_some_iff.mp found).1
  have inside := Tree.lt_size_of_mem_childrenOf (mem_of_getElem? found)
  by_cases more : index + 1 < (tree.childrenOf block).length
  · rw [startsOf_getD (List.getElem?_eq_getElem more), ← (List.getElem?_eq_some_iff.mp found).2]
    exact pairwise_iff_getElem.mp (wellFormed.ordered block inside) _ _ here more (Nat.lt_succ_self _)
  · simp [← stopOf_eq found (by omega), startsOf, show (tree.childrenOf block).length ≤ index + 1 by omega]

theorem startsOf_rising (block index : Nat) : (startsOf tree block).getD index (stopOf tree block) ≤
    (startsOf tree block).getD (index + 1) (stopOf tree block) := by
  by_cases inside : index < (tree.childrenOf block).length
  · have found := getElem?_eq_getElem inside
    have link := mem_of_getElem? found
    rw [startsOf_getD found]
    exact Int.le_trans (wellFormed.nested block (Tree.lt_size_of_mem_childrenOf link) _ link).2.1
      (stop_le_getD wellFormed found)
  · simp [startsOf, show (tree.childrenOf block).length ≤ index by omega,
      show (tree.childrenOf block).length ≤ index + 1 by omega]

theorem keepsApart (block : Nat) : KeepsApart tree block := by
  intro chunk index child found
  have rising := monotone_nat_of_le_succ (startsOf_rising wellFormed block)
  have start := startsOf_getD found
  have stop := stop_le_getD wellFormed found
  simp only [Chunk.range, ← start]
  split
  · next inside => exact ⟨rising inside.1, stop.trans (rising inside.2)⟩
  · next outside =>
    rcases Nat.lt_or_ge index chunk.2 with before | after
    · exact .inl (stop.trans (rising before))
    · exact .inr (rising (by omega))

end Siblings

theorem blockRemovals_cutUp {project : Project} {grammar : Grammar}
    (found : project.files.get? path = some file) (wellFormed : file.tree.IsWellFormed)
    (known : project.grammarOf path = .ok grammar)
    (made : blockRemovals project path passIndex none = .ok candidates)
    (visited : block ∈ file.tree.walk)
    (blockLike : (grammar.kind (file.tree.nodeAt block).kind).block = true)
    (nonempty : file.tree.childrenOf block ≠ []) :
    ∃ group : Nat, CutsUp candidates path [(group : Int)] (startsOf file.tree block)
      (stopOf file.tree block) := by
  have member : block ∈ blocks file.tree grammar := by
    refine mem_filter.mpr ⟨visited, ?_⟩
    rw [Tree.childrenOf_eq] at nonempty
    simp [Tree.nodes_getElem? (wellFormed.lt_size_of_mem_walk visited), blockLike]
    simpa using nonempty
  obtain ⟨group, numbered⟩ := mem_iff_getElem?.mp member
  have listed := mem_numbered 0 numbered
  rw [blockRemovals, Project.file_eq_ok_iff.mpr found, known, show groupAt none = (0, none) from rfl] at made
  simp only [bind, Except.bind, ite_self, groupsFrom_of_nonneg _ (Int.le_refl 0)] at made
  cases made
  have rising := startsOf_rising wellFormed block
  refine ⟨group, fun chunk => Chunk.tiles_level rising, fun chunk planned wide => ?_,
    fun index => Chunk.single_mem_plan⟩
  rw [startsOf, length_map] at planned
  obtain ⟨candidate, member, deletes⟩ := exists_siblingRemoval path passIndex group planned wide
  exact ⟨candidate, mem_flatMap.mpr ⟨((group : Int), block), by simpa using listed, member⟩, deletes⟩

/-! ### Lines -/

theorem startsOfLines_getD (data : Bytes) (index : Nat) :
    ((startsOfLines data).map (Nat.cast : Nat → Int)).getD index data.length =
      ((startsOfLines data).getD index data.length : Nat) := by
  simp only [getD_eq_getElem?_getD, getElem?_map]
  cases (startsOfLines data)[index]? <;> rfl

/-- Every file is cut up between its lines at all the sizes of its plan. -/
theorem lineRemovals_cutUp {project : Project} (found : project.files.get? path = some file)
    (made : lineRemovals project path passIndex none = .ok candidates) :
    CutsUp candidates path [] ((startsOfLines file.data).map Nat.cast) file.data.length := by
  refine ⟨fun chunk => Chunk.tiles_level fun index => ?_, fun chunk planned _ => ?_,
    fun index => Chunk.single_mem_plan⟩
  · rw [startsOfLines_getD, startsOfLines_getD]
    exact Int.ofNat_le.mpr (startsOfLines_mono file.data (Nat.le_succ index))
  · rw [length_map] at planned
    obtain ⟨positive, inside⟩ := Chunk.of_mem_plan planned
    rw [lineRemovals, Project.file_eq_ok_iff.mpr found] at made
    cases made
    refine ⟨_, mem_map.mpr ⟨chunk, planned, rfl⟩, rfl, rfl, ?_, rfl⟩
    rw [Chunk.range, startsOfLines_getD, startsOfLines_getD]
    exact congrArg (· :: []) (lines_splice positive inside)

/-- Deletions tile what they delete. A tracked file has a tree whose nodes agree about who stands where.
Then each block of its walk that has children is cut up by the candidates of its siblings: at every size
of the plan the ranges follow one another from the start of the first child to the end of the last, the
children of a chunk lie in its range and share no byte with another, every range that has bytes is
deleted by a candidate, and every child is a chunk of its own. All blocks are in the walk if nodes were
added to the tree one by one. In the same way the candidates of its lines cut up the file from its first
byte to its last where lines start, whatever its tree is, and there every range has bytes. -/
theorem proposals_tile {project : Project} {path : String} {file : TrackedFile}
    (found : Listing.get? project.files path = some file) (passIndex : Int) :
    (file.tree.IsArena → ∀ block < file.tree.nodes.size, block ∈ file.tree.walk) ∧
    (file.tree.IsWellFormed → ∀ grammar, project.grammarOf path = .ok grammar → ∃ candidates,
      deleteSiblings.proposals project (some path) passIndex none = .ok candidates ∧
      ∀ block ∈ file.tree.walk, (grammar.kind (file.tree.nodeAt block).kind).block = true →
        file.tree.childrenOf block ≠ [] →
        KeepsApart file.tree block ∧ ∃ group : Nat, CutsUp candidates path [(group : Int)]
          (startsOf file.tree block) (stopOf file.tree block)) ∧
    ∃ candidates, removeLines.proposals project (some path) passIndex none = .ok candidates ∧
      CutsUp candidates path [] ((startsOfLines file.data).map Nat.cast) file.data.length ∧
      (startsOfLines file.data).getD 0 file.data.length = 0 ∧
      ∀ size offset, 0 < size → offset < (startsOfLines file.data).length →
        (startsOfLines file.data).getD offset file.data.length <
          (startsOfLines file.data).getD (offset + size) file.data.length := by
  refine ⟨fun arena _ => arena.mem_walk, fun wellFormed grammar known => ?_, ?_⟩
  · have made : ∃ candidates, blockRemovals project path passIndex none = .ok candidates := by
      simp only [blockRemovals, Project.file_eq_ok_iff.mpr found, known, bind, Except.bind, groupAt,
        groupsFrom_of_nonneg _ (Int.le_refl 0)]
      exact ⟨_, rfl⟩
    obtain ⟨candidates, made⟩ := made
    exact ⟨candidates, made, fun block visited blockLike nonempty => ⟨keepsApart wellFormed block,
      blockRemovals_cutUp found wellFormed known made visited blockLike nonempty⟩⟩
  · have made : ∃ candidates, lineRemovals project path passIndex none = .ok candidates := by
      simp only [lineRemovals, Project.file_eq_ok_iff.mpr found, bind, Except.bind]
      exact ⟨_, rfl⟩
    obtain ⟨candidates, made⟩ := made
    refine ⟨candidates, made, lineRemovals_cutUp found made, ?_, fun size offset positive inside =>
      (lines_inside file.data positive inside).1⟩
    cases file.data <;> simp [startsOfLines, Bytes.lineStarts, Bytes.breaks]

end Pass

/-- The two lines of the small project are deleted together, and each of them alone. -/
theorem Sample.proposals_tile_lines : (fileOf lines).tree.IsArena ∧
    ∃ (group : Nat) (candidates : List Candidate),
    Pass.deleteSiblings.proposals project (some "a") 1 none = .ok candidates ∧
      Pass.CutsUp candidates "a" [(group : Int)] [0, 2] 3 := by
  have arena : (fileOf lines).tree.IsArena := by decide +kernel
  have found : Listing.get? project.files "a" = some (fileOf lines) := rfl
  have known : ∃ grammar, project.grammarOf "a" = .ok grammar ∧
      (grammar.kind ((fileOf lines).tree.nodeAt 0).kind).block = true := ⟨_, rfl, by decide +kernel⟩
  obtain ⟨grammar, known, blockLike⟩ := known
  obtain ⟨all, cut, -⟩ := Pass.proposals_tile found 1
  obtain ⟨candidates, made, cut⟩ := cut arena.toIsWellFormed grammar known
  obtain ⟨-, group, cut⟩ := cut 0 (all arena 0 (by decide)) blockLike (by decide)
  exact ⟨arena, group, candidates, made, cut⟩

end Whittle
