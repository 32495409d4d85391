import Whittle.Proofs.Archive.Load
import Whittle.Proofs.Invariant
import Whittle.Proofs.Names
import Whittle.Proofs.Opening

/-!
Runs that go on from each other's snapshots. The first chooses its files; each later one goes back
to a snapshot whose record was written of a project that an earlier one accepted
(`Run.Lineage`). Since the record tells the names of the files that were tracked and of those
removed, all projects of such runs divide the files of the first
(`Run.lineage_partitions`).
-/

namespace Whittle

variable {archive : Archive} {point : Checkpoint} {progress : Progress} {initial : List String}
  {files : List Value}

/-! ### Snapshots -/

/-- The record of a snapshot on disk is the one that is written of where a run stood. -/
def Checkpoint.WrittenOf (point : Checkpoint) (progress : Progress) (disk : Disk) : Prop :=
  ∃ id now record text, Archive.recordOf progress.capture id now = .ok record ∧
    (record.toValue >>= Value.Json.writeSpread) = .ok text ∧
    disk.read (point.path.child "meta.json") = .ok (Bytes.ofText text)

namespace Archive

variable {later : Archive} {disk : Disk} {id : Int}

/-- A snapshot whose record was written of where a run stood repeats that record. -/
theorem exists_repeats (proper : progress.project.files.IsProper) (plain : progress.IsPlain)
    (read : readRecord disk point.path = .ok point.record) (written : point.WrittenOf progress disk) :
    ∃ id now record, recordOf progress.capture id now = .ok record ∧ point.record.Repeats record := by
  obtain ⟨id, now, record, text, recorded, told, stored⟩ := written
  obtain ⟨value, valued, spread⟩ := bind_eq_ok_iff.mp told
  obtain ⟨bytes, lines, found, again, parsed, valued', repeats⟩ :=
    (isPlain_recordOf proper plain recorded).exists_read valued spread
  have reads : readRecord disk point.path = .ok again := by
    simp only [readRecord, stored, bytes, lines, parsed, valued', mapError_ok, bind, Except.bind]
  rw [read] at reads
  cases reads
  exact ⟨id, now, record, recorded, repeats⟩

end Archive

namespace Engine

variable {root : Path} {host : Host} {registry : Grammar.Registry} {disk : Disk} {project : Project}

/-- The project of a snapshot divides the same files as the one that the snapshot was taken of. -/
theorem divides_of_projectOf (divides : progress.project.Divides root initial)
    (rooted : Path.ofText root.text = root) (plain : progress.IsPlain)
    (read : Archive.readRecord disk point.path = .ok point.record)
    (names : point.contents.names = point.record.files.names)
    (written : point.WrittenOf progress disk)
    (made : projectOf host registry point (Path.ofText point.record.root) = .ok project) :
    project.Divides root initial ∧ (∀ name, name ∈ project.removed ↔ name ∈ progress.project.removed) ∧
      point.record.bookmark.path = progress.bookmark.path := by
  obtain ⟨id, now, record, recorded, repeats⟩ :=
    Archive.exists_repeats divides.proper plain read written
  rw [Archive.recordOf_capture] at recorded
  cases recorded
  obtain ⟨contents, base, removed⟩ := Project.contents_of_ofContents (of_projectOf made)
  have gone : ∀ name, name ∈ project.removed ↔ name ∈ progress.project.removed := by
    intro name
    rw [removed, mem_sortUnique, (removedNames_perm repeats.removed).mem_iff]
  have tracked : ∀ name, project.tracks name = true ↔ progress.project.tracks name = true := by
    intro name
    rw [Project.tracks_eq, contents, ← Listing.mem_names_iff, names, Listing.mem_names_iff,
      repeats.files, Listing.get?_map Digest.ofBytes, Option.isSome_map,
      Archive.get?_orderedFiles divides.proper, Project.tracks_eq]
  have proper : point.contents.IsProper := by
    rw [Listing.IsProper, names]
    exact repeats.proper
  refine ⟨⟨?_, Project.isProper_of_contents (contents ▸ proper), ?_, ?_, ?_, ?_⟩, gone, ?_⟩
  · rw [base, repeats.root, divides.root, rooted]
  · intro name is away
    exact divides.apart name ((tracked name).mp is) ((gone name).mp away)
  · intro name
    rw [divides.all, tracked, gone]
  · rw [removed]
    exact pairwise_sortUnique _
  · exact divides.some.imp fun name => (tracked name).mpr
  · rw [repeats.bookmark]

end Engine

/-! ### Runs -/

namespace Run

variable {root : Path} {origin : List String} {host : Host} {engine : Engine}
  {projects : List Project} {first : Project}

/-- The projects that a run accepted, the latest first: that of its result, and those of its
search. -/
def accepted (result : Except Failure Result) (after : Engine) : List Project :=
  (result.toOption.map (·.project)).toList ++ (after.standing.map Standing.projects).getD []

/-- Runs of which each goes on from a snapshot that was taken of a project that another one before
accepted, with the files that were removed when it began and the projects that it accepted. -/
inductive Lineage (root : Path) (initial : List String) : List String → List Project → Prop where
  | fresh {host : Host} {engine after : Engine} {files : List Value} {first : Project}
      {result : Except Failure Result} (idle : engine.standing = none)
      (chosen : ((fresh root files).begun engine).chooseFiles root files = .ok initial)
      (loaded : Project.load host.parsers ((fresh root files).begun engine).registry
        ((fresh root files).begun engine).world.disk root initial = .ok first)
      (ran : ((fresh root files).perform host).runOn engine = (result, after)) :
      Lineage root initial [] (accepted result after)
  | resumed {host : Host} {engine after : Engine} {origin : List String} {projects : List Project}
      {progress : Progress} {point : Checkpoint} {archive : Archive}
      {result : Except Failure Result} (earlier : Lineage root initial origin projects)
      (reached : progress.project ∈ projects) (marked : progress.bookmark.Marks initial)
      (idle : engine.standing = none)
      (loaded : (resumed.begun engine).archive.resume (resumed.begun engine).world.disk =
        .ok (point, archive))
      (written : point.WrittenOf progress (resumed.begun engine).world.disk)
      (ran : (resumed.perform host).runOn engine = (result, after)) :
      Lineage root initial progress.project.removed (accepted result after)

/-- A step leaves accepted projects that take their course. -/
def Goes (root : Path) (initial origin : List String) (step : Step Engine Result) (engine : Engine) :
    Prop :=
  step.Ends (fun result after => Project.Course root initial origin (accepted (.ok result) after))
    (fun failure after => Project.Course root initial origin (accepted (.error failure) after)) engine

theorem goes_search (divides : progress.project.Divides root initial)
    (marked : progress.bookmark.Marks initial) (begins : origin ⊆ progress.project.removed) :
    Goes root initial origin (Engine.search host progress) engine := by
  refine (Engine.search_course divides marked).imp ?_ ?_
  · rintro result after ⟨standing, left, onCourse, same⟩
    rw [accepted, left]
    change Project.Course _ _ _ (result.project :: standing.projects)
    rw [same]
    exact (onCourse.course.push (onCourse.course.divides _ List.mem_cons_self) fun _ => id).mono begins
  · rintro failure after ⟨standing, left, onCourse⟩
    rw [accepted, left]
    exact onCourse.course.mono begins

theorem goes_perform (run : Run) (idle : engine.standing = none)
    (takes : ∀ project, run.Takes host engine project →
      project.Divides root initial ∧ origin ⊆ project.removed)
    (marks : ∀ progress, run.Yields host engine progress → progress.bookmark.Marks initial) :
    Goes root initial origin (run.perform host) engine := by
  refine run.perform_opens engine ?_ ?_ ?_
  · intro result after ceases
    obtain ⟨divides, begins⟩ := takes _ ceases.takes
    rw [accepted, ceases.standing, idle]
    exact .single divides begins
  · intro failure after stops
    rw [accepted, stops.standing, idle]
    exact .nil
  · intro progress begun reaches
    obtain ⟨divides, begins⟩ := takes _ reaches.yields.takes
    exact goes_search divides (marks progress reaches.yields) begins

theorem goes_fresh (idle : engine.standing = none)
    (chosen : ((fresh root files).begun engine).chooseFiles root files = .ok initial) :
    Goes root initial [] ((fresh root files).perform host) engine := by
  refine goes_perform _ idle ?_ ?_
  · intro project takes
    cases takes with | fresh chosen' loaded =>
    cases chosen.symm.trans chosen'
    exact ⟨(divides_of_load chosen loaded).1, List.nil_subset _⟩
  · intro progress yields
    cases yields
    exact .inl rfl

theorem goes_resumed (idle : engine.standing = none)
    (loaded : (resumed.begun engine).archive.resume (resumed.begun engine).world.disk =
      .ok (point, archive))
    (rooted : Path.ofText root.text = root) (divides : progress.project.Divides root initial)
    (marked : progress.bookmark.Marks initial) (plain : progress.IsPlain)
    (written : point.WrittenOf progress (resumed.begun engine).world.disk) :
    Goes root initial progress.project.removed (resumed.perform host) engine := by
  obtain ⟨id, found⟩ := Archive.exists_load_of_resume loaded
  obtain ⟨read, names⟩ := Archive.of_load found
  have made : ∀ {registry project}, Engine.projectOf host registry point
      (Path.ofText point.record.root) = .ok project → _ :=
    Engine.divides_of_projectOf divides rooted plain read names written
  refine goes_perform _ idle ?_ ?_
  · intro project takes
    cases takes with | resumed loaded' is =>
    cases loaded.symm.trans loaded'
    obtain ⟨divides, gone, -⟩ := made is
    exact ⟨divides, fun name => (gone name).mpr⟩
  · intro later yields
    cases yields with | resumed loaded' is _ =>
    cases loaded.symm.trans loaded'
    rw [Bookmark.Marks, (made is).2.2]
    exact marked

/-- The texts of names and of their root can be written down and read back. -/
def Nameable (root : Path) (initial : List String) : Prop :=
  Text.IsWellFormed root.text ∧ ∀ name ∈ initial, Text.IsWellFormed name

theorem nameable_of_load (read : root.IsRead) (whole : ∀ name ∈ initial, Text.IsWhole name)
    (chosen : engine.chooseFiles root files = .ok initial)
    (loaded : Project.load host.parsers engine.registry engine.world.disk root initial = .ok first) :
    Nameable root initial := by
  refine ⟨read.isWhole.isWellFormed_text (Disk.usable_of_isDir (of_chooseFiles chosen).1), ?_⟩
  intro name member
  obtain ⟨pairs, found, -⟩ := bind_eq_ok_iff.mp loaded
  obtain ⟨names, all⟩ := Project.read_of_readAll found
  rw [← names, List.mem_map] at member
  obtain ⟨pair, listed, rfl⟩ := member
  have named := whole pair.1 (names ▸ List.mem_map_of_mem listed)
  exact read.isWhole.isWellFormed_of_child named (Disk.usable_of_read (all pair listed))

theorem Nameable.isPlain (nameable : Nameable root initial)
    (divides : progress.project.Divides root initial) (marked : progress.bookmark.Marks initial) :
    progress.IsPlain where
  root := divides.root ▸ nameable.1
  bookmark := by
    refine marked.imp_right ?_
    rintro ⟨name, member, same⟩
    exact ⟨name, same, nameable.2 name member⟩
  tracked name tracked := nameable.2 name ((divides.all name).mpr (.inl tracked))
  removed name gone := nameable.2 name ((divides.all name).mpr (.inr gone))

/-- All projects of a lineage divide the files of its first run. -/
theorem Lineage.course (read : root.IsRead) (whole : ∀ name ∈ initial, Text.IsWhole name)
    (lineage : Lineage root initial origin projects) :
    Project.Course root initial origin projects ∧ Nameable root initial := by
  have went : ∀ {origin : List String} {step : Step Engine Result} {engine after : Engine}
      {result : Except Failure Result}, Goes root initial origin step engine →
      step.runOn engine = (result, after) → Project.Course root initial origin (accepted result after) := by
    intro origin step engine after result goes ran
    rw [Goes, Step.Ends, ran] at goes
    cases result <;> exact goes
  induction lineage with
  | fresh idle chosen loaded ran =>
    exact ⟨went (goes_fresh idle chosen) ran, nameable_of_load read whole chosen loaded⟩
  | resumed earlier reached marked idle loaded written ran ih =>
    obtain ⟨course, nameable⟩ := ih
    have divides := course.divides _ reached
    have plain := nameable.isPlain divides marked
    exact ⟨went (goes_resumed idle loaded read.ofText_text divides marked plain written) ran, nameable⟩

/-- In a run from the beginning and in all that go on from its snapshots, the files that are tracked
and those that were removed are those of the first run, each one or the other, the removed ones in
order and each once. At least one is tracked, and one that was removed is never tracked again. -/
theorem lineage_partitions (read : root.IsRead) (whole : ∀ name ∈ initial, Text.IsWhole name)
    (lineage : Lineage root initial origin projects) :
    (∀ project ∈ projects,
      (∀ name ∈ project.paths, name ∉ project.removed) ∧
      (∀ name, name ∈ initial ↔ name ∈ project.paths ∨ name ∈ project.removed) ∧
      project.removed.Pairwise (· < ·) ∧ project.paths ≠ [] ∧ origin ⊆ project.removed) ∧
    projects.Pairwise fun later earlier =>
      ∀ name ∈ earlier.removed, name ∈ later.removed ∧ name ∉ later.paths := by
  obtain ⟨course, -⟩ := lineage.course read whole
  constructor
  · intro project member
    have divides := course.divides project member
    refine ⟨fun name listed => divides.apart name (Project.mem_paths_iff.mp listed), fun name => ?_,
      divides.ordered, ?_, course.origin project member⟩
    · rw [divides.all, Project.mem_paths_iff]
    · obtain ⟨name, tracked⟩ := divides.some
      exact List.ne_nil_of_mem (Project.mem_paths_iff.mpr tracked)
  · refine course.grows.imp_of_mem fun {later earlier} member _ grows name gone => ?_
    refine ⟨grows gone, fun listed => ?_⟩
    exact (course.divides later member).apart name (Project.mem_paths_iff.mp listed) (grows gone)

end Run

/-! ### Two files -/

namespace Sample

/-- An engine for the small project with a second file, which takes each snapshot it is offered. -/
def twofold : Engine :=
  { engine with
    archive := { engine.archive with interval := .int 0 }
    passes := [.removeFiles]
    world :=
      { disk :=
          { disk with
            entries := disk.entries ++ [(["work", "project", "b"], .file (.ofBytes lines) Disk.newMode)] } } }

theorem twofold_chosen : ((Run.fresh root [.text "a", .text "b"]).begun twofold).chooseFiles root
    [.text "a", .text "b"] = .ok ["a", "b"] := by
  decide +kernel

theorem twofold_loads : ∃ first, Project.load host.parsers
    ((Run.fresh root [.text "a", .text "b"]).begun twofold).registry
    ((Run.fresh root [.text "a", .text "b"]).begun twofold).world.disk root ["a", "b"] = .ok first := by
  have loads : (Project.load host.parsers
      ((Run.fresh root [.text "a", .text "b"]).begun twofold).registry
      ((Run.fresh root [.text "a", .text "b"]).begun twofold).world.disk root ["a", "b"]).isOk = true := by
    decide +kernel
  revert loads
  cases Project.load host.parsers _ _ root ["a", "b"] with
  | ok first => exact fun _ => ⟨first, rfl⟩
  | error failure => exact fun loads => nomatch loads

/-- Of two files one is removed, the other stays. -/
theorem lineage_partitions_twofold : ∃ projects, Run.Lineage root ["a", "b"] [] projects ∧
    (∃ project ∈ projects, project.removed = ["a"]) ∧ ∀ project ∈ projects,
      (∀ name, name ∈ ["a", "b"] ↔ name ∈ project.paths ∨ name ∈ project.removed) ∧
      project.paths ≠ [] := by
  have removes : ((Run.fresh root [.text "a", .text "b"]).perform host).Ends
      (fun result _ => result.project.removed = ["a"]) (fun _ _ => False) twofold := by
    decide +kernel
  obtain ⟨result, after, ran, removed⟩ := removes.exists_ok
  obtain ⟨first, loaded⟩ := twofold_loads
  have lineage := Run.Lineage.fresh rfl twofold_chosen loaded ran
  have partitions := Run.lineage_partitions ⟨"project", Text.isWhole_of_unmarked (by decide), rfl⟩
    (fun name member => Text.isWhole_of_unmarked (by revert name; decide)) lineage
  refine ⟨_, lineage, ⟨result.project, List.mem_cons_self, removed⟩, fun project member => ?_⟩
  obtain ⟨-, all, -, some, -⟩ := partitions.1 project member
  exact ⟨all, some⟩

end Sample
end Whittle
