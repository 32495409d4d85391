import Mathlib.Control.Monad.Basic
import Whittle.Grammar.Builtin
import Whittle.Proofs.Trial

/-!
A trial is a transaction: whatever candidate, driver and hooks do, it either commits a
smaller project on which the bug was reproduced, or leaves project and files as they
were. That takes files of their own: a name that leads to the file of another one shows
the other's bytes.
-/

namespace Whittle

/-- A disk holds the files of a project, and none of the other files of a layout. -/
def Layout.Holds (layout : Layout) (disk : Disk) (project : Project) : Prop :=
  ∀ name ∈ layout.names,
    match project.contents.get? name with
    | some data => disk.read (layout.root.child name) = .ok data
    | none => disk.pathExists (layout.root.child name) = .ok false

theorem Layout.Fits.holds {layout : Layout} {disk : Disk} {project : Project}
    (fits : layout.Fits disk) (shows : layout.Shows disk (project.contents.get?)) :
    layout.Holds disk project := by
  intro name member
  have shown := shows name member
  split
  · next data found => exact (fits.read_eq_ok_iff member).mpr (shown.trans found)
  · next none => rw [fits.pathExists member, shown, none]; rfl

theorem Bench.Settled.notDirty {layout : Layout} {bench : Bench} (settled : bench.Settled layout) :
    bench.worktree.dirty = false := by
  simp [Worktree.dirty, settled.clean]

namespace Trial

variable {layout : Layout} {host : Host} {driver : String} {hooks : Hooks} {bench : Bench}

/-- A trial is a transaction. On a settled bench whose files driver and hooks leave alone it ends in
one of two ways. It may commit: then the driver reproduced the bug on a disk that held the project
that is now accepted, which is what the candidate makes of the old one, and smaller. Or it does not,
for whatever reason: then the project is the old one, if files can be written back. In both cases
no candidate is left pending, and the disk holds the accepted project. -/
theorem run_transacts (candidate : Candidate) (settled : bench.Settled layout)
    (undisturbed : layout.Undisturbed (.any layout) host driver hooks) :
    ∃ result after, (run host driver hooks candidate).runOn bench = (result, after) ∧
      ((∃ trial hearing, result = .ok trial ∧ trial.committed = true ∧
          after.judge.hearings = hearing :: bench.judge.hearings ∧
          trial.verdict = some hearing.verdict ∧ hearing.verdict.reproduces = true ∧
          layout.Holds hearing.disk after.project ∧
          candidate.Turns (Listing.get? bench.project.contents)
            (Listing.get? after.project.contents) ∧
          (∀ name, name ∈ after.project.removed ↔
            name ∈ bench.project.removed ∨ name ∈ candidate.removed) ∧
          trial.sizeBefore = bench.project.size ∧ trial.sizeAfter = after.project.size ∧
          trial.sizeAfter < trial.sizeBefore ∧
          after.worktree.dirty = false ∧ layout.Holds after.world.disk after.project) ∨
        ((∀ trial, result = .ok trial → trial.committed = false) ∧
          (layout.Writable → after.project = bench.project ∧
            after.worktree.dirty = false ∧ layout.Holds after.world.disk after.project))) := by
  have ends := run_ends candidate undisturbed settled
  rcases ran : (run host driver hooks candidate).runOn bench with ⟨failure | trial, after⟩
  · rw [Step.ends_error ran] at ends
    refine ⟨_, _, rfl, .inr ⟨fun _ same => (by cases same), fun writable => ?_⟩⟩
    obtain ⟨returns, -⟩ := ends.1 writable
    exact ⟨returns.project, returns.settled.notDirty, returns.settled.fits.holds returns.settled.shows⟩
  · rw [Step.ends_ok ran] at ends
    obtain ⟨⟨rfl, ends⟩, -⟩ := ends
    refine ⟨_, _, rfl, ?_⟩
    split at ends
    · next committed =>
      obtain ⟨hearing, heard, verdict, reproduces, tells⟩ := ends.heard
      exact .inl ⟨trial, hearing, rfl, committed, heard, verdict, reproduces,
        tells.fits.holds tells.shows, ends.turns, ends.removed, ends.sizeBefore, ends.sizeAfter,
        ends.smaller, ends.settled.notDirty, ends.settled.fits.holds ends.settled.shows⟩
    · next rejected =>
      refine .inr ⟨?_, fun writable => ?_⟩
      · rintro _ ⟨⟩
        exact Bool.eq_false_iff.mpr rejected
      · have returns := ends.1 writable
        exact ⟨returns.project, returns.settled.notDirty,
          returns.settled.fits.holds returns.settled.shows⟩

end Trial

/-! ### A small project -/

namespace Sample

/-- A project of two lines in one file, with a driver that always reproduces the bug. -/
def root : Path := Path.ofText "project"

def lines : Bytes := [120, 10, 121, 10]

def fileOf (data : Bytes) : TrackedFile :=
  { data, tree := Grammar.Lines.parse data, grammar := "lines" }

def project : Project :=
  { root, files := [("a", fileOf lines)], registry := Grammar.Builtin.registry }

def disk : Disk where
  home := ["work"]
  entries := [(["work", "project"], .dir),
    (["work", "project", "a"], .file (.ofBytes lines) Disk.newMode)]

def host : Host where
  parsers := { concrete := fun _ _ => default, statements := fun _ => .ok [] }
  launch _ _ _ disk := { disk, start := .running false {} }

/-- A host whose driver never reproduces the bug. -/
def mute : Host :=
  { host with launch := fun _ _ _ disk => { disk, start := .running false { exit := 1 } } }

def candidate : Candidate :=
  { passName := "lines", path := some "a", splices := [{ start := 0, stop := 2 }] }

def bench : Bench where
  project
  worktree := { root }
  judge := {}
  world := { disk }

def layout : Layout where
  root
  names := ["a"]
  seat _ := ["work", "project", "a"]
  apart := by simp
  clear := by
    simp only [List.mem_singleton, forall_eq]
    decide

/-- The names in the small project are looked up in its directory. -/
theorem arrive_root {disk : Disk} {path : Path} (home : disk.home = ["work"])
    (top : disk.get? ["work", "project"] = some .dir) (relative : path.isAbsolute = false)
    (names : path.parent.names = ["project"]) :
    disk.arrive Disk.linkLimit (disk.startOf path) path.parent.names =
      some (Disk.linkLimit, ["work", "project"]) := by
  rw [Disk.startOf, relative, if_neg (by decide), home, names,
    Disk.arrive_cons_dir ⟨by decide, by decide⟩ (by decide) top, Disk.arrive]
  rfl

theorem layout_fits_of {disk : Disk} (home : disk.home = ["work"])
    (top : disk.get? ["work", "project"] = some .dir)
    (file : Disk.IsFile? (disk.get? ["work", "project", "a"]))
    (owned : ∀ contents mode, disk.get? ["work", "project", "a"] = some (.file contents mode) →
      mode &&& 0o400 ≠ 0)
    (free : disk.get? ["work", "project", ".a.grammar-reduce.tmp"] = none) : layout.Fits disk := by
  have name : (root.child "a").name = "a" := by decide
  have seated := Disk.Seated.of_arrive (Disk.unusable?_eq_none (by decide) (by decide)) (by decide)
    ⟨by decide, by decide⟩ (by decide) (arrive_root home top (by decide) (by decide)) top (name ▸ file)
  refine ⟨?_, ?_, ?_⟩
  all_goals
    rintro _ member
    cases List.mem_singleton.mp member
  · exact name ▸ seated
  · exact owned
  · exact free

theorem layout_fits {disk : Disk} {contents : Contents} {mode : Nat} (owned : mode &&& 0o400 ≠ 0)
    (home : disk.home = ["work"]) (top : disk.get? ["work", "project"] = some .dir)
    (found : disk.get? ["work", "project", "a"] = some (.file contents mode))
    (free : disk.get? ["work", "project", ".a.grammar-reduce.tmp"] = none) : layout.Fits disk := by
  refine layout_fits_of home top (Disk.isFile?_iff.mpr (.inr ⟨contents, mode, found⟩)) ?_ free
  intro _ _ here
  cases found.symm.trans here
  exact owned

theorem layout_writable : layout.Writable := by
  refine Layout.writable_of_storable fun name member => ?_
  cases List.mem_singleton.mp member
  exact ⟨Disk.unusable?_eq_none (by decide) (by decide), by decide,
    Disk.unusable?_eq_none (by decide) (by decide), by decide, by decide⟩

theorem layout_undisturbed (drift : layout.Drift) : layout.Undisturbed drift host "driver" {} := by
  have alone : ∀ disk, layout.Fits disk → layout.Spares drift disk disk :=
    fun disk fits => ⟨fits, fun _ _ => rfl, drift.alters fits fits (.refl layout disk)⟩
  exact ⟨fun _ => alone, alone, fun _ => alone⟩

theorem bench_settled : bench.Settled layout where
  root := rfl
  clean := rfl
  fits := layout_fits (by decide) rfl rfl rfl rfl
  shows name member := by
    cases List.mem_singleton.mp member
    rfl
  proper := by simp [Listing.IsProper, Listing.names, bench, project]
  tracked name tracked := by
    obtain ⟨file, found⟩ := Project.tracks_iff.mp tracked
    exact Listing.mem_names_iff.mpr (Option.isSome_iff_exists.mpr ⟨file, found⟩)

/-- After a trial the small project holds together. -/
theorem run_transacts_lines : ∃ result after,
    (Trial.run host "driver" {} candidate).runOn bench = (result, after) ∧
      after.worktree.dirty = false ∧ layout.Holds after.world.disk after.project := by
  obtain ⟨result, after, ran, ends⟩ :=
    Trial.run_transacts candidate bench_settled (layout_undisturbed _)
  refine ⟨result, after, ran, ?_⟩
  rcases ends with ⟨_, _, _, _, _, _, _, _, _, _, _, _, _, clean, holds⟩ | ⟨-, ends⟩
  · exact ⟨clean, holds⟩
  · exact (ends layout_writable).2

/-- The small project with a second file that is a link to the first. -/
def linked : Bench where
  project := { project with files := [("a", fileOf lines), ("b", fileOf lines)] }
  worktree := { root }
  judge := {}
  world := { disk := { disk with entries := disk.entries ++ [(["work", "project", "b"], .link "a")] } }

/-- Where two names lead to one file, a trial that commits a change of one leaves the other
changed on disk, although the accepted project has it as it was. -/
theorem run_linked_differs :
    linked.worktree.dirty = false ∧
    (∀ name data, Listing.get? linked.project.contents name = some data →
      linked.world.disk.read (root.child name) = .ok data) ∧
    (∀ count disk, (host.launch root "driver" count disk).disk = disk) ∧
    ∃ trial after, (Trial.run host "driver" {} candidate).runOn linked = (.ok trial, after) ∧
      trial.committed = true ∧ Listing.get? after.project.contents "b" = some lines ∧
      after.world.disk.read (root.child "b") ≠ .ok lines := by
  refine ⟨rfl, ?_, fun _ _ => rfl, ?_⟩
  · intro name data found
    rw [linked, Project.get?_contents, Listing.get?_cons, Listing.get?_cons] at found
    split at found
    · next same =>
      cases same
      cases found
      decide +kernel
    · split at found
      · next same =>
        cases same
        cases found
        decide +kernel
      · cases found
  · exact Step.Ends.exists_ok (by decide +kernel)

end Sample
end Whittle
