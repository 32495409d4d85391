import Whittle.Project
import Whittle.Proofs.Listing
import Whittle.Proofs.Step

/-!
What becomes of a project when a candidate is applied and committed. The buffers that
applying yields can always be committed (`Project.commit_of_suits`): the files they speak
of then have the new bytes, or are gone, the others stay, and the project has the size
that was foretold. What the new bytes are is told by the candidate alone
(`Candidate.Turns`).
-/

namespace Whittle

open Listing

open List

variable {path name : String} {buffers : Buffers} {trees : Listing Tree}

/-- What a candidate makes of the bytes under each name: the files it removes are gone, the file it
splices has the spliced bytes, and all others are as they were. -/
structure Candidate.Turns (candidate : Candidate) (old new : String → Option Bytes) : Prop where
  removed : ∀ name ∈ candidate.removed, new name = none
  spliced : ∀ name ∉ candidate.removed, candidate.path = some name → candidate.splices ≠ [] →
    ∃ data changed, old name = some data ∧ candidate.spliceInto data = .ok changed ∧
      new name = some changed
  kept : ∀ name ∉ candidate.removed, (candidate.path = some name → candidate.splices = []) →
    new name = old name

namespace Project

variable {project : Project}

/-- Buffers that speak of tracked files only, each once, and have a tree for all new bytes. -/
structure Buffers.Suits (buffers : Buffers) (project : Project) : Prop where
  proper : buffers.contents.IsProper
  tracked : ∀ name ∈ buffers.contents.names, project.tracks name = true
  parsed : ∀ name data, buffers.contents.get? name = some (some data) →
    ∃ tree, buffers.trees.get? name = some tree
  size : buffers.size = Bytes.total (project.files.map (sizeAfter buffers.contents))

theorem get?_contents (project : Project) (name : String) :
    project.contents.get? name = (project.files.get? name).map (·.data) :=
  get?_map TrackedFile.data project.files name

theorem names_contents (project : Project) :
    project.contents.names = project.files.names :=
  names_map TrackedFile.data project.files

/-! ### Applying -/

theorem get?_foldl_set (removed : List String) (listing : Listing (Option Bytes)) (name : String) :
    (removed.foldl (fun listing path => Listing.set listing path none) listing).get? name =
      if name ∈ removed then some none else listing.get? name := by
  induction removed generalizing listing with
  | nil => simp
  | cons path rest ih =>
    rw [foldl_cons, ih, get?_set]
    by_cases later : name ∈ rest
    · simp [later]
    · by_cases here : name = path <;> simp [later, here]

theorem isProper_foldl_set (removed : List String) {listing : Listing (Option Bytes)}
    (proper : listing.IsProper) :
    Listing.IsProper
      (removed.foldl (fun listing path => set listing path none) listing) := by
  induction removed generalizing listing with
  | nil => exact proper
  | cons path rest ih => exact ih (proper.set path none)

theorem get?_foldl_erase (removed : List String) (listing : Listing Tree) (name : String) :
    (removed.foldl Listing.erase listing).get? name =
      if name ∈ removed then none else listing.get? name := by
  induction removed generalizing listing with
  | nil => simp
  | cons path rest ih =>
    rw [foldl_cons, ih, get?_erase]
    by_cases later : name ∈ rest
    · simp [later]
    · by_cases here : name = path <;> simp [later, here]

theorem file_eq_ok_iff {file : TrackedFile} :
    project.file path = .ok file ↔ project.files.get? path = some file := by
  rw [Project.file]
  cases project.files.get? path <;> simp

section Apply

variable {parsers : Parsers} {candidate : Candidate}

theorem eq_some_of_spliced {data : Bytes} {tree : Tree}
    (spliced : project.spliced parsers candidate = .ok (some (path, data, tree))) :
    candidate.path = some path ∧ candidate.splices ≠ [] ∧ project.tracks path = true ∧
      ∃ old, project.contents.get? path = some old ∧
        candidate.spliceInto old = .ok data := by
  unfold Project.spliced at spliced
  split at spliced
  · cases spliced
  · next own isOwn =>
    split at spliced
    · cases spliced
    · next splices =>
      obtain ⟨file, found, spliced⟩ := bind_eq_ok_iff.mp spliced
      obtain ⟨changed, becomes, spliced⟩ := bind_eq_ok_iff.mp spliced
      obtain ⟨_, _, spliced⟩ := bind_eq_ok_iff.mp spliced
      cases spliced
      have found := file_eq_ok_iff.mp found
      refine ⟨isOwn, by simpa using splices, ?_, file.data, ?_, becomes⟩
      · rw [tracks, has, found, Option.isSome_some]
      · rw [get?_contents, found, Option.map_some]

theorem eq_none_of_spliced (spliced : project.spliced parsers candidate = .ok none)
    (own : candidate.path = some path) : candidate.splices = [] := by
  unfold Project.spliced at spliced
  rw [own] at spliced
  dsimp only at spliced
  split at spliced
  · next none => simpa using none
  · obtain ⟨_, _, spliced⟩ := bind_eq_ok_iff.mp spliced
    obtain ⟨_, _, spliced⟩ := bind_eq_ok_iff.mp spliced
    obtain ⟨_, _, spliced⟩ := bind_eq_ok_iff.mp spliced
    cases spliced

section

variable (applied : project.apply parsers candidate = .ok buffers)

include applied

theorem get?_contents_of_apply : ∃ change, project.spliced parsers candidate = .ok change ∧
      ∀ name, buffers.contents.get? name =
        if name ∈ candidate.removed then some none
        else change.bind fun new => if new.1 = name then some (some new.2.1) else none := by
  obtain ⟨change, spliced, applied⟩ := bind_eq_ok_iff.mp applied
  split at applied
  · cases applied
  · cases applied
    refine ⟨change, spliced, fun name => ?_⟩
    rw [get?_foldl_set]
    rcases change with _ | ⟨path, data, tree⟩
    · rfl
    · simp only [Option.toList, map_cons, map_nil, get?_cons]
      rfl

theorem get?_trees_of_apply : ∃ change, project.spliced parsers candidate = .ok change ∧
      ∀ name, buffers.trees.get? name =
        if name ∈ candidate.removed then none
        else change.bind fun new => if new.1 = name then some new.2.2 else none := by
  obtain ⟨change, spliced, applied⟩ := bind_eq_ok_iff.mp applied
  split at applied
  · cases applied
  · cases applied
    refine ⟨change, spliced, fun name => ?_⟩
    rw [get?_foldl_erase]
    rcases change with _ | ⟨path, data, tree⟩
    · rfl
    · simp only [Option.toList, map_cons, map_nil, get?_cons]
      rfl

/-- The buffers of a candidate tell of no other files as gone than those it removes. -/
theorem gone_iff_of_apply :
    buffers.contents.get? name = some none ↔ name ∈ candidate.removed := by
  obtain ⟨change, -, found⟩ := get?_contents_of_apply applied
  rw [found]
  split
  · next gone => simp [gone]
  · next stays =>
    refine ⟨fun other => ?_, fun gone => absurd gone stays⟩
    rcases change with _ | ⟨path, data, tree⟩
    · cases other
    · rw [Option.bind_some] at other
      split at other <;> cases other

/-- Applying a candidate makes of a project's bytes what the candidate says. -/
theorem turns_of_apply : candidate.Turns (project.contents.get?)
      (overlay buffers.contents (project.contents.get?)) := by
  obtain ⟨change, spliced, found⟩ := get?_contents_of_apply applied
  refine ⟨fun name gone => ?_, fun name stays own splices => ?_, fun name stays own => ?_⟩
  · rw [overlay, found, if_pos gone]
  · rcases change with _ | ⟨path, data, tree⟩
    · exact absurd (eq_none_of_spliced spliced own) splices
    · obtain ⟨isOwn, -, -, old, had, becomes⟩ := eq_some_of_spliced spliced
      cases isOwn.symm.trans own
      refine ⟨old, data, had, becomes, ?_⟩
      rw [overlay, found, if_neg stays, Option.bind_some, if_pos rfl]
  · rcases change with _ | ⟨path, data, tree⟩
    · rw [overlay, found, if_neg stays, Option.bind_none]
    · obtain ⟨isOwn, splices, -⟩ := eq_some_of_spliced spliced
      have other : path ≠ name := fun same => splices (own (same ▸ isOwn))
      rw [overlay, found, if_neg stays, Option.bind_some, if_neg other]

theorem suits_of_apply : buffers.Suits project := by
  obtain ⟨change, spliced, applied⟩ := bind_eq_ok_iff.mp applied
  split at applied
  · cases applied
  · next tracked =>
    rw [find?_eq_none] at tracked
    cases applied
    refine ⟨?_, ?_, ?_, rfl⟩
    · refine isProper_foldl_set _ ?_
      rcases change with _ | ⟨path, data, tree⟩ <;> simp [Listing.IsProper, names]
    · intro name member
      rw [mem_names_iff, get?_foldl_set] at member
      split at member
      · next removed => simpa using tracked name removed
      · rcases change with _ | ⟨path, data, tree⟩
        · cases member
        · simp only [Option.toList, map_cons, map_nil, get?_cons] at member
          split at member
          · next same => exact same ▸ (eq_some_of_spliced spliced).2.2.1
          · cases member
    · intro name data found
      rw [get?_foldl_set] at found
      split at found
      · cases found
      · next kept =>
        rw [get?_foldl_erase, if_neg kept]
        rcases change with _ | ⟨path, spliced, tree⟩
        · cases found
        · simp only [Option.toList, map_cons, map_nil, get?_cons] at found ⊢
          split at found
          · next same => exact ⟨tree, by rw [if_pos same]⟩
          · cases found

end

end Apply

/-! ### Committing -/

/-- A project with other bytes in its files, or with fewer files. -/
structure Becomes (project : Project) (bytes : String → Option Bytes) (changed : Project) : Prop where
  root : changed.root = project.root
  registry : changed.registry = project.registry
  proper : changed.files.IsProper
  contents : ∀ name, changed.contents.get? name = bytes name

theorem total_map_erase (files : Listing TrackedFile) (path : String) (data rest : Listing (Option Bytes))
    (gone : ∀ file : TrackedFile, sizeAfter data (path, file) = 0)
    (same : ∀ file : String × TrackedFile, file.1 ≠ path → sizeAfter data file = sizeAfter rest file) :
    Bytes.total ((erase files path).map (sizeAfter rest)) =
      Bytes.total (files.map (sizeAfter data)) := by
  induction files with
  | nil => rfl
  | cons file later ih =>
    simp only [erase, Bytes.total] at ih ⊢
    by_cases here : file.1 = path
    · obtain ⟨name, tracked⟩ := file
      cases here
      rw [filter_cons_of_neg (by simp), ih, map_cons, foldr_cons, gone, Nat.zero_add]
    · rw [filter_cons_of_pos (by simpa using here), map_cons, map_cons,
        foldr_cons, foldr_cons, ih, same file here]

theorem total_map_set (files : Listing TrackedFile) (path : String) (changed : TrackedFile)
    (data rest : Listing (Option Bytes)) (proper : files.IsProper)
    (tracked : path ∈ files.names)
    (here : ∀ file : TrackedFile, sizeAfter data (path, file) = sizeAfter rest (path, changed))
    (same : ∀ file : String × TrackedFile, file.1 ≠ path → sizeAfter data file = sizeAfter rest file) :
    Bytes.total ((set files path changed).map (sizeAfter rest)) =
      Bytes.total (files.map (sizeAfter data)) := by
  induction files with
  | nil => simp [names] at tracked
  | cons file later ih =>
    rw [Listing.IsProper, names, map_cons, nodup_cons] at proper
    rw [Listing.set]
    by_cases found : file.1 = path
    · obtain ⟨name, old⟩ := file
      cases found
      rw [if_pos rfl, map_cons, map_cons, here]
      congr 2
      refine map_congr_left fun other member => (same other fun equal => proper.1 ?_).symm
      exact equal ▸ mem_map_of_mem member
    · have later' : path ∈ Listing.names later := by
        rcases mem_cons.mp tracked with rfl | member
        · exact absurd rfl found
        · exact member
      have ih := ih proper.2 later'
      simp only [Bytes.total] at ih ⊢
      rw [if_neg found, map_cons, map_cons, foldr_cons, foldr_cons, ih,
        same file found]

theorem tracks_iff :
    project.tracks name = true ↔ ∃ file, project.files.get? name = some file := by
  rw [tracks, has, Option.isSome_iff_exists]

section

variable (proper : Listing.IsProper project.files)

include proper

/-- One file of a project takes on new bytes or goes, and the size changes with it. -/
theorem commitFile_ok {data : Option Bytes} (tracked : project.tracks path = true)
    (parsed : ∀ bytes, data = some bytes → ∃ tree, trees.get? path = some tree) :
    ∃ changed, project.commitFile trees path data = .ok changed ∧
      project.Becomes (fun name => if name = path then data else project.contents.get? name)
        changed ∧ changed.removed = project.removed ∧
      ∀ rest : Listing (Option Bytes), rest.get? path = none →
        Bytes.total (changed.files.map (sizeAfter rest)) =
          Bytes.total (project.files.map (sizeAfter ((path, data) :: rest))) := by
  obtain ⟨file, found⟩ := tracks_iff.mp tracked
  have asked : project.file path = .ok file := file_eq_ok_iff.mpr found
  have others : ∀ (rest : Listing (Option Bytes)) (other : String × TrackedFile), other.1 ≠ path →
      sizeAfter ((path, data) :: rest) other = sizeAfter rest other := by
    intro rest other apart
    rw [sizeAfter, get?_cons, if_neg apart.symm, sizeAfter]
  cases data with
  | none =>
    refine ⟨{ project with files := erase project.files path }, ?_,
      ⟨rfl, rfl, proper.erase path, fun name => ?_⟩, rfl, fun rest _ => ?_⟩
    · rw [commitFile, asked]
      rfl
    · rw [get?_contents, get?_erase, get?_contents]
      split <;> rfl
    · exact total_map_erase _ _ _ _ (fun file => by simp [sizeAfter, get?_cons]) (others rest)
  | some bytes =>
    obtain ⟨tree, parsed⟩ := parsed bytes rfl
    refine ⟨{ project with
        files := set project.files path { file with data := bytes, tree } }, ?_,
      ⟨rfl, rfl, proper.set path _, fun name => ?_⟩, rfl, fun rest new => ?_⟩
    · rw [commitFile, asked]
      simp only [bind, Except.bind, parsed]
      rfl
    · rw [get?_contents, get?_set, get?_contents]
      split <;> rfl
    · refine total_map_set _ _ _ _ _ proper ?_ (fun file => ?_) (others rest)
      · rw [mem_names_iff, found, Option.isSome_some]
      · simp [sizeAfter, get?_cons, new]

/-- The files of a project take on new bytes or go, one after the other. -/
theorem commitFiles_ok {entries : Listing (Option Bytes)} (once : entries.IsProper)
    (tracked : ∀ name ∈ entries.names, project.tracks name = true)
    (parsed : ∀ name data, entries.get? name = some (some data) →
      ∃ tree, trees.get? name = some tree) :
    ∃ changed, project.commitFiles trees entries = (.ok (), changed) ∧
      project.Becomes (fun name => (entries.get? name).getD (project.contents.get? name))
        changed ∧ changed.removed = project.removed ∧
      changed.size = Bytes.total (project.files.map (sizeAfter entries)) := by
  induction entries generalizing project with
  | nil => exact ⟨project, rfl, ⟨rfl, rfl, proper, fun _ => rfl⟩, rfl, rfl⟩
  | cons entry rest ih =>
    obtain ⟨path, data⟩ := entry
    rw [Listing.IsProper, names, map_cons, nodup_cons] at once
    have new : Listing.get? rest path = none := Listing.get?_eq_none_iff.mpr once.1
    have parsedHere : ∀ bytes, data = some bytes → ∃ tree, trees.get? path = some tree :=
      fun bytes same => parsed path bytes (by rw [get?_cons, if_pos rfl, same])
    obtain ⟨middle, committed, becomes, removed, size⟩ :=
      commitFile_ok proper (tracked path mem_cons_self) parsedHere
    have apart : ∀ name, (Listing.get? rest name).isSome = true → name ≠ path := by
      rintro _ there rfl
      rw [new] at there
      cases there
    have tracked' : ∀ name ∈ Listing.names rest, middle.tracks name = true := by
      intro name member
      obtain ⟨file, found⟩ := tracks_iff.mp (tracked name (mem_cons_of_mem _ member))
      have kept := becomes.contents name
      rw [if_neg (apart name (mem_names_iff.mp member)), get?_contents, get?_contents,
        found] at kept
      obtain ⟨file', found', -⟩ := Option.map_eq_some_iff.mp kept
      exact tracks_iff.mpr ⟨file', found'⟩
    have parsed' : ∀ name bytes, Listing.get? rest name = some (some bytes) →
        ∃ tree, trees.get? name = some tree := by
      intro name bytes found
      refine parsed name bytes ?_
      rw [get?_cons, if_neg (apart name (by rw [found]; rfl)).symm, found]
    obtain ⟨changed, done, becomes', removed', size'⟩ := ih becomes.proper once.2 tracked' parsed'
    refine ⟨changed, ?_, ⟨becomes'.root.trans becomes.root, becomes'.registry.trans becomes.registry,
      becomes'.proper, fun name => ?_⟩, removed'.trans removed, size'.trans (size rest new)⟩
    · rw [commitFiles, committed]
      exact done
    · rw [becomes'.contents, becomes.contents, get?_cons]
      by_cases here : path = name
      · rw [if_pos here, ← here, new, if_pos rfl]
        rfl
      · rw [if_neg here, if_neg (Ne.symm here)]

/-- The buffers of a candidate can be committed; the project then has the files that they tell of,
and the size that was foretold. -/
theorem commit_of_suits (suits : buffers.Suits project) :
    ∃ changed, project.commit buffers = (.ok (), changed) ∧
      project.Becomes (overlay buffers.contents (project.contents.get?)) changed ∧
      changed.size = buffers.size ∧
      ∀ name, name ∈ changed.removed ↔ name ∈ project.removed ∨
        buffers.contents.get? name = some none := by
  obtain ⟨changed, committed, becomes, removed, size⟩ :=
    commitFiles_ok proper suits.proper suits.tracked suits.parsed
  let gone := (buffers.contents.filter fun entry => entry.2.isNone).map Prod.fst
  refine ⟨{ changed with removed := sortUnique (changed.removed ++ gone) },
    by rw [commit, committed], ⟨becomes.root, becomes.registry, becomes.proper, ?_⟩,
    size.trans suits.size.symm, fun name => ?_⟩
  · intro name
    refine (becomes.contents name).trans ?_
    rw [overlay]
    cases buffers.contents.get? name <;> rfl
  · rw [mem_sortUnique, mem_append, removed, mem_map]
    refine or_congr_right ⟨?_, fun gone => ⟨(name, none), ?_, rfl⟩⟩
    · rintro ⟨⟨_, data⟩, member, rfl⟩
      obtain ⟨member, gone⟩ := mem_filter.mp member
      exact (get?_of_mem suits.proper member).trans
        (congrArg some (Option.isNone_iff_eq_none.mp gone))
    · exact mem_filter.mpr ⟨mem_of_get? gone, rfl⟩

end

/-- A project tracks nothing new after a candidate. -/
theorem tracks_of_becomes {changed : Project} (suits : buffers.Suits project)
    (becomes : project.Becomes (overlay buffers.contents (project.contents.get?)) changed)
    (tracked : changed.tracks name = true) : project.tracks name = true := by
  by_cases spoken : name ∈ buffers.contents.names
  · exact suits.tracked name spoken
  · obtain ⟨file, found⟩ := tracks_iff.mp tracked
    have kept := becomes.contents name
    rw [overlay, get?_eq_none_iff.mpr spoken, get?_contents, get?_contents, found] at kept
    obtain ⟨file', found', -⟩ := Option.map_eq_some_iff.mp kept.symm
    exact tracks_iff.mpr ⟨file', found'⟩

end Project
end Whittle
