import Whittle.Proofs.Proposals

/-!
A pass that is asked again with the position of one of its candidates makes that candidate and
those after it, and nothing else. A position names a chunk of a plan, and a plan is a walk through
chunks in which the next one depends on nothing but the last (`Chunk.descend`), so that a walk
begun at a chunk is the rest of the walk that came to it. What a pass makes of each chunk does not
depend on where the plan began.
-/

namespace Whittle

open List

namespace Chunk

variable {total size offset : Nat} {chunk : Nat × Nat} {before after : List (Nat × Nat)}

theorem sweep_rest (split : sweep total size offset = before ++ chunk :: after) :
    chunk.1 = size ∧ sweep total size chunk.2 = chunk :: after := by
  fun_induction sweep total size offset generalizing before with
  | case1 offset inside ih =>
    cases before with
    | nil =>
      obtain ⟨rfl, rest⟩ := cons.inj split
      refine ⟨rfl, ?_⟩
      rw [sweep, dif_pos inside, rest]
    | cons first before => exact ih (cons.inj split).2
  | case2 => simp at split

theorem descend_rest (split : descend total size offset = before ++ chunk :: after) :
    chunk.1 ≤ size ∧ descend total chunk.1 chunk.2 = chunk :: after := by
  fun_induction descend total size offset generalizing before with
  | case1 size offset ih =>
    -- a chunk of a smaller size is one of the descent that follows the sweep
    have smaller : ∀ skipped, (if _ : 1 < size then descend total ((size + 1) / 2) 0 else []) =
        skipped ++ chunk :: after →
        chunk.1 ≤ size ∧ descend total chunk.1 chunk.2 = chunk :: after := by
      intro skipped later
      split at later
      · next large =>
        obtain ⟨bounded, rest⟩ := ih large later
        exact ⟨by omega, rest⟩
      · simp at later
    rcases append_eq_append_iff.mp split with ⟨skipped, -, later⟩ | ⟨here, swept, rest⟩
    · exact smaller skipped later
    · cases here with
      | nil => exact smaller [] rest.symm
      | cons first here =>
        obtain ⟨rfl, rfl⟩ := cons.inj rest
        obtain ⟨same, again⟩ := sweep_rest swept
        refine ⟨Nat.le_of_eq same, ?_⟩
        rw [descend, same, again]
        rfl

/-- From any of its chunks on a plan is the rest of itself: the chunks of a plan lie in the run, so
that none of them is clamped. -/
theorem plan_rest (split : plan total none = before ++ chunk :: after) :
    plan total (some (chunk.1, chunk.2)) = chunk :: after := by
  have member : chunk ∈ plan total none := split ▸ mem_append_right _ mem_cons_self
  have some := (of_mem_plan member).1
  rw [plan] at split ⊢
  split at split
  · simp at split
  · next items =>
    obtain ⟨bounded, rest⟩ := descend_rest split
    have free : origin total (.some ((chunk.1 : Int), (chunk.2 : Int))) = chunk := by
      simp only [origin] at bounded ⊢
      ext <;> dsimp only <;> omega
    rw [if_neg items, free, rest]

section Made

variable {α : Type} {item : α} {before after : List α}

/-- What is made of the chunks of a plan, each by itself, is made again from any of its items on
where the plan begins at the chunk of this item. -/
theorem filterMap_plan_rest {make : Nat × Nat → Option α}
    (split : (plan total none).filterMap make = before ++ item :: after) :
    ∃ size offset : Nat, make (size, offset) = some item ∧
      (plan total (some (size, offset))).filterMap make = item :: after := by
  obtain ⟨skipped, rest, planned, -, made⟩ := filterMap_eq_append_iff.mp split
  obtain ⟨idle, chunk, later, rfl, -, here, remaining⟩ := filterMap_eq_cons_iff.mp made
  rw [← append_assoc] at planned
  refine ⟨chunk.1, chunk.2, here, ?_⟩
  rw [plan_rest planned, filterMap_cons_some here, remaining]

theorem map_plan_rest {make : Nat × Nat → α}
    (split : (plan total none).map make = before ++ item :: after) :
    ∃ size offset : Nat, make (size, offset) = item ∧
      (plan total (some (size, offset))).map make = item :: after := by
  rw [← filterMap_eq_map] at split ⊢
  obtain ⟨size, offset, made, rest⟩ := filterMap_plan_rest split
  exact ⟨size, offset, Option.some.inj made, rest⟩

end Made

end Chunk

namespace Pass

variable {project : Project} {path : String} {passIndex : Int} {candidate : Candidate}
  {before after : List Candidate}

theorem fileRemovals_rest
    (split : fileRemovals project passIndex none = before ++ candidate :: after) :
    fileRemovals project passIndex candidate.bookmark.position = candidate :: after := by
  obtain ⟨size, offset, made, rest⟩ := Chunk.filterMap_plan_rest split
  dsimp only at made
  split at made
  · cases made
  · cases made
    exact rest

theorem simplifications_rest
    (made : simplifications project path passIndex none = .ok (before ++ candidate :: after)) :
    simplifications project path passIndex candidate.bookmark.position =
      .ok (candidate :: after) := by
  obtain ⟨file, asked, made⟩ := bind_eq_ok_iff.mp made
  obtain ⟨grammar, knows, made⟩ := bind_eq_ok_iff.mp made
  obtain ⟨size, offset, rfl, rest⟩ := Chunk.map_plan_rest (Except.ok.inj made)
  rw [simplifications, asked, knows]
  exact congrArg Except.ok rest

theorem lineRemovals_rest
    (made : lineRemovals project path passIndex none = .ok (before ++ candidate :: after)) :
    lineRemovals project path passIndex candidate.bookmark.position = .ok (candidate :: after) := by
  obtain ⟨file, asked, made⟩ := bind_eq_ok_iff.mp made
  obtain ⟨size, offset, rfl, rest⟩ := Chunk.map_plan_rest (Except.ok.inj made)
  rw [lineRemovals, asked]
  exact congrArg Except.ok rest

/-! ### Blocks -/

theorem siblingRemovals_rest {tree : Tree} {group : Int} {block : Nat}
    (split : siblingRemovals tree path passIndex group block none = before ++ candidate :: after) :
    ∃ start, groupAt candidate.bookmark.position = (group, start) ∧
      siblingRemovals tree path passIndex group block start = candidate :: after := by
  obtain ⟨size, offset, made, rest⟩ := Chunk.filterMap_plan_rest split
  dsimp only at made
  split at made
  · cases made
  · cases made
    exact ⟨some (size, offset), rfl, rest⟩

theorem numbered_rest {make : Int × Nat → List Candidate} {first : Int} {blocks : List Nat}
    (split : (numbered first blocks).flatMap make = before ++ candidate :: after) :
    ∃ skipped block rest ahead behind, blocks = skipped ++ block :: rest ∧
      make (first + skipped.length, block) = ahead ++ candidate :: behind ∧
      after = behind ++ (numbered (first + skipped.length + 1) rest).flatMap make := by
  induction blocks generalizing first before with
  | nil => simp [numbered] at split
  | cons block rest ih =>
    have later : ∀ ahead, (numbered (first + 1) rest).flatMap make = ahead ++ candidate :: after →
        ∃ skipped next rest' ahead behind, block :: rest = skipped ++ next :: rest' ∧
          make (first + skipped.length, next) = ahead ++ candidate :: behind ∧
          after = behind ++ (numbered (first + skipped.length + 1) rest').flatMap make := by
      intro ahead split
      obtain ⟨skipped, next, rest', ahead, behind, rfl, here, after⟩ := ih split
      have counted : first + 1 + (skipped.length : Int) = first + ((block :: skipped).length : Nat) := by
        simp only [length_cons]
        omega
      exact ⟨block :: skipped, next, rest', ahead, behind, rfl, counted ▸ here, counted ▸ after⟩
    rw [numbered, flatMap_cons] at split
    rcases append_eq_append_iff.mp split with ⟨ahead, -, behind⟩ | ⟨here, made, behind⟩
    · exact later ahead behind
    · cases here with
      | nil => exact later [] behind.symm
      | cons first here =>
        obtain ⟨rfl, rfl⟩ := cons.inj behind
        exact ⟨[], block, rest, before, here, rfl, by simpa using made, by simp⟩

theorem le_of_mem_numbered {first : Int} {blocks : List Nat} {entry : Int × Nat}
    (member : entry ∈ numbered first blocks) : first ≤ entry.1 := by
  induction blocks generalizing first with
  | nil => cases member
  | cons block rest ih =>
    rcases mem_cons.mp member with rfl | later
    · exact Int.le_refl _
    · have := ih later
      omega

theorem blockRemovals_rest
    (made : blockRemovals project path passIndex none = .ok (before ++ candidate :: after)) :
    blockRemovals project path passIndex candidate.bookmark.position = .ok (candidate :: after) := by
  obtain ⟨file, asked, made⟩ := bind_eq_ok_iff.mp made
  obtain ⟨grammar, knows, made⟩ := bind_eq_ok_iff.mp made
  obtain ⟨groups, from_, made⟩ := bind_eq_ok_iff.mp made
  cases from_
  have split := Except.ok.inj made
  simp only [ite_self, Int.toNat_zero, drop_zero] at split
  obtain ⟨skipped, block, rest, ahead, behind, blocks, here, rfl⟩ := numbered_rest split
  obtain ⟨start, group, again⟩ := siblingRemovals_rest here
  rw [Int.zero_add] at group again
  rw [blockRemovals, asked, knows]
  simp only [bind, Except.bind]
  rw [group, groupsFrom_of_nonneg _ (Int.natCast_nonneg _), blocks, Int.toNat_natCast,
    drop_left' rfl]
  -- only the first block begins at the chunk of the position
  refine congrArg Except.ok ?_
  rw [numbered, flatMap_cons, if_pos rfl, again, cons_append, Int.zero_add]
  congr 2
  refine flatMap_congr fun entry member => ?_
  have := le_of_mem_numbered member
  rw [if_neg (by omega)]

/-! ### All passes -/

theorem blankRemovals_first
    (made : blankRemovals project path passIndex = .ok (before ++ candidate :: after)) :
    before = [] := by
  obtain ⟨file, -, made⟩ := bind_eq_ok_iff.mp made
  dsimp only at made
  split at made
  · have := Except.ok.inj made
    simp at this
  · have lengths := congrArg length (Except.ok.inj made)
    simp only [length_cons, length_append, length_nil] at lengths
    exact eq_nil_of_length_eq_zero (by omega)

/-- Where a pass begins again at the position of a candidate, no two candidates share one. -/
theorem pairwise_position {made : Option (List Int) → Except Failure (List Candidate)}
    {candidates : List Candidate}
    (rest : ∀ before candidate after, candidates = before ++ candidate :: after →
      made candidate.bookmark.position = .ok (candidate :: after)) :
    candidates.Pairwise fun left right => left.bookmark.position ≠ right.bookmark.position := by
  induction candidates with
  | nil => exact .nil
  | cons first later ih =>
    refine pairwise_cons.mpr ⟨fun other member same => ?_, ih fun before candidate after split =>
      rest (first :: before) candidate after (congrArg _ split)⟩
    obtain ⟨before, after, rfl⟩ := append_of_mem member
    have whole := rest [] first _ rfl
    have part := rest (first :: before) other after rfl
    -- what comes from one position would be both all candidates and fewer
    rw [same, part] at whole
    have lengths := congrArg length (Except.ok.inj whole)
    simp only [length_cons, length_append] at lengths
    omega

/-- A pass that begins at the position of one of its candidates replays the rest. Let a pass make
its candidates for a project or a file from the beginning. Asked again with the position of any of
them, it makes exactly this candidate and those after it, bookmarks and descriptions included, and
no two candidates share a position: going on from there, none is skipped and none is repeated. -/
theorem proposals_rest (pass : Pass) (project : Project) (target : Option String)
    (passIndex : Int) {candidates : List Candidate}
    (made : pass.proposals project target passIndex none = .ok candidates) :
    (∀ before candidate after, candidates = before ++ candidate :: after →
      pass.proposals project target passIndex candidate.bookmark.position =
        .ok (candidate :: after)) ∧
    candidates.Pairwise fun left right => left.bookmark.position ≠ right.bookmark.position := by
  have rest : ∀ before candidate after, candidates = before ++ candidate :: after →
      pass.proposals project target passIndex candidate.bookmark.position =
        .ok (candidate :: after) := by
    rintro before candidate after rfl
    cases pass with
    | removeFiles => exact congrArg Except.ok (fileRemovals_rest (Except.ok.inj made))
    | deleteSiblings =>
      cases target with
      | none => cases made
      | some path => exact blockRemovals_rest made
    | replaceSimpler =>
      cases target with
      | none => cases made
      | some path => exact simplifications_rest made
    | removeLines =>
      cases target with
      | none => cases made
      | some path => exact lineRemovals_rest made
    | discardWhitespace =>
      cases target with
      | none => cases made
      | some path =>
        cases blankRemovals_first made
        exact made
  exact ⟨rest, pairwise_position rest⟩

end Pass

/-- The second of the single siblings of the small project is made again by itself. -/
theorem Sample.proposals_rest_lines : ∃ whole first second,
    Pass.deleteSiblings.proposals project (some "a") 1 none = .ok [whole, first, second] ∧
      second.bookmark.position = some [0, 1, 1] ∧
      Pass.deleteSiblings.proposals project (some "a") 1 second.bookmark.position = .ok [second] := by
  have placed : (Pass.deleteSiblings.proposals project (some "a") 1 none).map
      (·.map (·.bookmark.position)) = .ok [some [0, 2, 0], some [0, 1, 0], some [0, 1, 1]] := by
    decide +kernel
  cases made : Pass.deleteSiblings.proposals project (some "a") 1 none with
  | error failure =>
    rw [made] at placed
    cases placed
  | ok candidates =>
    rw [made] at placed
    obtain ⟨whole, _, rfl, -, placed⟩ := List.map_eq_cons_iff.mp (Except.ok.inj placed)
    obtain ⟨first, _, rfl, -, placed⟩ := List.map_eq_cons_iff.mp placed
    obtain ⟨second, _, rfl, position, placed⟩ := List.map_eq_cons_iff.mp placed
    cases List.map_eq_nil_iff.mp placed
    have rest := (Pass.proposals_rest .deleteSiblings project (some "a") 1 made).1
    exact ⟨whole, first, second, rfl, position, rest [whole, first] second [] rfl⟩

end Whittle
