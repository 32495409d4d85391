import Whittle.Proofs.Archive.Shelf
import Whittle.Proofs.Run

/-!
The invariant of whole runs: from the check of the first disk on, whenever no candidate is
on disk, the disk holds the accepted project, and the bug was last reproduced on a disk
that held it. That takes records of their own: a run that keeps its snapshots among the
tracked files can delete one.
-/

namespace Whittle

section Invariant

/-- All through a search, and where a run ends after it, the disk holds the accepted project, as it
did when the bug was last reproduced. No phase of the search is without its scene. -/
structure Engine.Upright (engine : Engine) (standing : Standing) : Prop where
  clean : standing.worktree.dirty = false
  scenes : ∀ scene ∈ standing.scenes, scene.Faithful
  told : engine.trail.filter Phase.isSettled <:+
    (standing.scenes.map (·.phase)).filter Phase.isSettled
  ending : Scene.Faithful
    { phase := engine.phase, project := standing.progress.project
      disk := engine.world.disk, hearings := engine.judge.hearings }

variable {grounds : Grounds} {outfit : Outfit} {host : Host} {engine : Engine} {standing : Standing}

theorem Engine.Rests.upright (rests : engine.Rests grounds outfit standing) :
    engine.Upright standing where
  clean := by simp [Worktree.dirty, rests.clean]
  scenes := rests.scenes
  told := rests.told
  ending := rests.upholds.scene _

/-- The invariant of whole runs, whatever the driver answers. A run works on files that have their
places on the grounds, apart from the records that it keeps, and the driver leaves them alone. Then
the search, if the run comes to it, is upright. The run comes to it unless it fails or is
interrupted before. -/
theorem Run.perform_upright (run : Run) (apart : run.Apart grounds host engine) :
    ∃ result after, (run.perform host).runOn engine = (result, after) ∧
      (∀ answer, result = .ok answer → after.standing = none → answer.status = .interrupted) ∧
      ∀ standing, after.standing = some standing → after.Upright standing := by
  let Left (after : Engine) : Prop :=
    ∀ standing, after.standing = some standing → after.Upright standing
  have unsearched : ∀ after : Engine, after.standing = none → Left after := by
    intro after idle standing stands
    cases idle.symm.trans stands
  have rested : ∀ after : Engine, (∃ standing, after.Rests grounds engine.outfit standing) →
      Left after := by
    rintro after ⟨standing, rests⟩ other stands
    cases rests.left.symm.trans stands
    exact rests.upright
  have ends : (run.perform host).Ends
      (fun answer after => (after.standing = none → answer.status = .interrupted) ∧ Left after)
      (fun _ => Left) engine := by
    refine perform_ends apart
      (fun answer after interrupted idle => ⟨fun _ => interrupted, unsearched after idle⟩)
      unsearched fun progress begun begins => ?_
    refine (Engine.search_rests apart.undisturbed apart.writable begins.toUpholds begins.untold).imp ?_
      fun _ => rested
    rintro answer after ⟨standing, rests⟩
    refine ⟨fun idle => ?_, rested after ⟨standing, rests⟩⟩
    cases idle.symm.trans rests.left
  rcases ran : (run.perform host).runOn engine with ⟨failure | answer, after⟩
  · rw [Step.ends_error ran] at ends
    exact ⟨_, _, rfl, fun _ same => (by cases same), ends⟩
  · rw [Step.ends_ok ran] at ends
    refine ⟨_, _, rfl, ?_, ends.2⟩
    rintro _ ⟨⟩
    exact ends.1

end Invariant

/-! ### Runs on the small project -/

namespace Sample

/-- An engine that keeps its snapshots beside the small project. -/
def engine : Engine where
  driver := "driver"
  judge := {}
  archive := { directory := Path.ofText "snaps" }
  passes := [.removeLines]
  registry := Grammar.Builtin.registry
  world := { disk }

/-- All that lies below the directory of the snapshots. -/
def margin : Margin where
  has place := ["work", "snaps"].isPrefixOf place
  below place more inside := by
    rw [List.isPrefixOf_iff_prefix] at inside ⊢
    exact inside.trans (List.prefix_append place more)

def grounds : Grounds where
  toLayout := layout
  margin := margin
  records := [Path.ofText "snaps"]
  inner := by
    intro name member
    cases List.mem_singleton.mp member
    exact ⟨by decide, by decide, by decide⟩
  seats := by decide
  spares := by decide

theorem grounds_fits_of {disk : Disk} (files : layout.Fits (disk.without margin))
    (snaps : (disk.without margin).lookUp .entry (Path.ofText "snaps") = .ok ["work", "snaps"])
    (linkless : disk.entries.all (fun entry => entry.2 matches .dir | .file _ _) = true) :
    grounds.Fits disk where
  files
  linkless place target member := by cases List.all_eq_true.mp linkless _ member
  records path member := by
    cases List.mem_singleton.mp member
    exact ⟨Path.ofText "snaps", ["work", "snaps"], [], ⟨by decide, by decide⟩, snaps, rfl, rfl, by simp⟩

theorem grounds_fits : grounds.Fits disk :=
  grounds_fits_of (layout_fits (by decide) rfl rfl rfl rfl) (by decide +kernel) (by decide)

theorem fresh_suits {engine : Engine} (chosen : ((Run.fresh root [.text "a"]).begun engine).chooseFiles
    root [.text "a"] = .ok ["a"]) : (Run.fresh root [.text "a"]).Suits grounds engine := by
  refine ⟨rfl, fun paths chosen' => ?_⟩
  cases chosen.symm.trans chosen'
  exact fun name => Iff.rfl

/-- What is left when an archive was offered a snapshot of the small project, and nothing else is on
disk. -/
def offered : Archive × Disk :=
  ((Archive.offer (fun _ => pure ()) ({ project } : Progress).capture 0.0).runOn
    (engine.archive, { home := ["work"], entries := [] })).2

/-- An engine that is to go on from the snapshot, with the directory of the project gone. -/
def deserted : Engine :=
  { engine with world := { disk := offered.2 } }

/-- The disk once the file of the snapshot is written. -/
def regained : Disk :=
  ((Worktree.putFiles root (Worktree.ordered [("a", some lines)])).runOn offered.2).2

theorem offered_facts : offered.1.written = [1] ∧ offered.1.directory = Path.ofText "snaps" ∧
    offered.2.get? ["work", "project"] = none := by
  decide +kernel

theorem project_names {name : String} (tracked : project.tracks name = true) : name = "a" := by
  have member := Listing.mem_names_iff.mpr tracked
  simpa [project, Listing.names] using member

theorem project_isRecordable : ({ project } : Progress).IsRecordable where
  proper := by simp [Listing.IsProper, Listing.names, project]
  inner name tracked := project_names tracked ▸ grounds.inner "a" (by decide)
  apart name other tracked tracked' _ := (project_names tracked).trans (project_names tracked').symm
  plain := by
    refine ⟨Text.isWellFormed_of_unmarked (by decide), .inl rfl, fun name tracked => ?_, by simp [project]⟩
    exact project_names tracked ▸ Text.isWellFormed_of_unmarked (by decide)

theorem offered_stocked :
    Archive.Stocked margin ["work", "snaps"] [(1, { project })] offered.1 offered.2 := by
  have empty : Archive.Stocked margin ["work", "snaps"] [] engine.archive
      { home := ["work"], entries := [] } :=
    { shelf := .empty fun name => by simp [Disk.get?, Disk.isPlace]
      tree := Disk.isTree_of_entries (by simp)
      distinct := by simp [Disk.IsDistinct]
      linkless := fun _ _ member => by cases member
      reaches := ⟨Path.ofText "snaps", ["work", "snaps"], [], ⟨by decide, by decide⟩,
        by decide +kernel, rfl, rfl, rfl, by simp⟩
      outside := fun more deeper fixed => by
        have above := ( List.isPrefixOf_iff_prefix.mp fixed).length_le
        simp at above
      counted := fun _ member => by cases member
      natural := Int.le_refl _
      ample := rfl }
  obtain ⟨kept, rfl | ⟨id, rfl⟩, written, stocked⟩ := Step.ends_const.mp
    (Archive.offer_ends empty rfl project_isRecordable)
  · cases offered_facts.1.symm.trans written
  · cases offered_facts.1.symm.trans written
    exact stocked

theorem deserted_resumes : ∃ point archive,
    deserted.archive.resume deserted.world.disk = .ok (point, archive) ∧
      point.Restores 1 { project } := by
  have stocked := offered_stocked
  have shelf : Archive.Shelf deserted.archive.directory _ _ _ := offered_facts.2.1 ▸ stocked.shelf
  exact shelf.exists_resume rfl stocked.tree stocked.distinct stocked.linkless_inside

theorem regained_fits : grounds.Fits regained := by
  have facts : let disk := regained.without margin
      disk.home = ["work"] ∧ disk.get? ["work", "project"] = some .dir ∧
      disk.get? ["work", "project", "a"] = some (.file (.ofBytes lines) Disk.newMode) ∧
      disk.get? ["work", "project", ".a.grammar-reduce.tmp"] = none ∧
      disk.lookUp .entry (Path.ofText "snaps") = .ok ["work", "snaps"] ∧
      regained.entries.all (fun entry => entry.2 matches .dir | .file _ _) = true := by
    decide +kernel
  obtain ⟨home, top, found, free, snaps, linkless⟩ := facts
  exact grounds_fits_of (layout_fits (by decide) home top found free) snaps linkless

theorem deserted_receives : grounds.Receives [("a", lines)] offered.2 where
  whole := by
    have facts : let whole := (offered.2.makeDirs true root).2
        (∀ entry ∈ whole.entries, whole.get? entry.1.dropLast = some .dir) ∧ whole.home = ["work"] ∧
        whole.get? ["work", "project"] = some .dir ∧ whole.get? ["work", "project", "a"] = none ∧
        whole.get? ["work", "project", ".a.grammar-reduce.tmp"] = none := by
      decide +kernel
    obtain ⟨tree, home, top, missing, free⟩ := facts
    refine ⟨_, Disk.isTree_of_entries tree, Disk.grows_makeDirs offered.2 true root,
      layout_fits_of home top ?_ ?_ free⟩
    · rw [missing]
      trivial
    · rw [missing]
      simp
  fits stored ran := by
    have same : regained = stored := congrArg Prod.snd ran
    exact same ▸ regained_fits

theorem deserted_apart : Run.resumed.Apart grounds host deserted := by
  obtain ⟨point, archive, found, restores⟩ := deserted_resumes
  have contents : point.contents = [("a", lines)] := List.perm_singleton.mp
    (Listing.perm_of_get? restores.proper (by simp [Listing.IsProper, Listing.names]) restores.contents)
  have removed : point.record.removed = [] := List.perm_nil.mp restores.removed
  refine ⟨rfl, rfl, ?_, rfl, ?_, layout_undisturbed _, layout_writable⟩
  all_goals
    intro other later resumed
    cases found.symm.trans resumed
  · exact contents ▸ deserted_receives
  · refine ⟨project, ⟨rfl, project_isRecordable.proper, fun name tracked => ?_, by simp [project]⟩,
      ⟨?_, restores.proper, restores.contents, removed⟩, fun name member => .inl ?_⟩
    · exact List.mem_singleton.mpr (project_names tracked)
    · rw [restores.root]
      rfl
    · cases List.mem_singleton.mp member
      rfl

/-- A run on the small project comes to its search, which is upright; and so is that of a run which
goes on from a snapshot where the directory of the project is gone, if the run comes to it. -/
theorem perform_upright_lines :
    (∃ result after, ((Run.fresh root [.text "a"]).perform host).runOn engine = (result, after) ∧
      ∃ standing, after.standing = some standing ∧ standing.scenes ≠ [] ∧ after.Upright standing) ∧
    deserted.world.disk.get? ["work", "project"] = none ∧
    (∃ point archive, deserted.archive.resume deserted.world.disk = .ok (point, archive)) ∧
    ∃ result after, (Run.resumed.perform host).runOn deserted = (result, after) ∧
      (∀ answer, result = .ok answer → after.standing = none → answer.status = .interrupted) ∧
      ∀ standing, after.standing = some standing → after.Upright standing := by
  have apart : (Run.fresh root [.text "a"]).Apart grounds host engine :=
    ⟨rfl, rfl, grounds_fits, rfl, fresh_suits (by decide +kernel), layout_undisturbed _,
      layout_writable⟩
  obtain ⟨result, after, ran, -, upright⟩ := Run.perform_upright _ apart
  have searched : (((Run.fresh root [.text "a"]).perform host).runOn engine).2.standing.any
      (fun standing => !standing.scenes.isEmpty) = true := by
    decide +kernel
  rw [ran, Option.any_eq_true] at searched
  obtain ⟨standing, stands, scenes⟩ := searched
  obtain ⟨point, archive, found, -⟩ := deserted_resumes
  exact ⟨⟨result, after, ran, standing, stands, by simpa using scenes, upright standing stands⟩,
    offered_facts.2.2, ⟨point, archive, found⟩, Run.perform_upright _ deserted_apart⟩

/-- A file that lies where the first snapshot is going to be prepared. -/
def staged : String := ".000001.partial/a"

/-- An engine that keeps its snapshots in the directory of the project itself. -/
def among : Engine :=
  { engine with
    archive := { directory := Path.ofText "." }
    passes := [.removeFiles]
    world :=
      { disk :=
          { home := ["work"]
            entries := [(["work", ".000001.partial"], .dir),
              (["work", ".000001.partial", "a"], .file (.ofBytes lines) Disk.newMode)] } } }

/-- A run that keeps its snapshots among the tracked files can lose one of them. Nothing fails, and
the driver touches nothing, but at the scenes of the search the file is gone from disk, while the
accepted project has it. -/
theorem perform_among_strays :
    (∀ count disk, (host.launch (Path.ofText ".") "driver" count disk).disk = disk) ∧
    ∃ result after,
      ((Run.fresh (Path.ofText ".") [.text staged]).perform host).runOn among = (.ok result, after) ∧
      result.status = .fixpoint ∧ ∃ standing, after.standing = some standing ∧
        ∃ scene ∈ standing.scenes, scene.phase.isSettled = true ∧
          Listing.get? scene.project.contents staged = some lines ∧
          (scene.disk.read (scene.project.root.child staged)).isOk = false ∧ ¬ scene.Faithful := by
  refine ⟨fun _ _ => rfl, ?_⟩
  have strays : ((Run.fresh (Path.ofText ".") [.text staged]).perform host).Ends
      (fun result after => result.status = .fixpoint ∧ ∃ standing ∈ after.standing.toList,
        ∃ scene ∈ standing.scenes, scene.phase.isSettled = true ∧
          Listing.get? scene.project.contents staged = some lines ∧
          (scene.disk.read (scene.project.root.child staged)).isOk = false)
      (fun _ _ => False) among := by
    decide +kernel
  obtain ⟨result, after, ran, status, standing, stands, scene, member, settled, tracked, gone⟩ :=
    strays.exists_ok
  refine ⟨result, after, ran, status, standing, Option.mem_toList.mp stands, scene, member, settled,
    tracked, gone, fun faithful => ?_⟩
  rw [faithful.stands.tracked staged lines tracked] at gone
  cases gone

end Sample
end Whittle
