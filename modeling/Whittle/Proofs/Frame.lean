import Whittle.Proofs.Lineage

/-!
What a run leaves alone. Whatever becomes of it, a run from the beginning changes nothing but the
tracked files and what it keeps as records, and leaves no temporary file; and until the bug
is reproduced it changes nothing but its log (`Run.start_frames`). That needs nothing of the
candidates that are tried, nor that they can be written: all writing goes through the working tree
(`Trial.run_keeps`) or the records. What stands under the tracked names may be anything,
links included, as long as the ways to it stay (`Ambit.Fits`).
-/

namespace Whittle

open Step

open List

variable {before : Disk} {name : String} {after : Engine} {progress : Progress}
  {property : Engine → Prop} {files : List Value}

/-! ### Disks -/

/-- What a run may change: the entries that some names lead to from a root, and a margin with the
records that are kept at some paths. The names lead down from the root, and none leads to where
another file is written before it is moved to its place. -/
structure Ambit where
  root : Path
  names : List String
  seat : String → Disk.Place
  margin : Margin
  records : List Path
  inner : ∀ name ∈ names, Path.IsInner name
  clear : ∀ name ∈ names, ∀ other ∈ names,
    seat name ≠ Worktree.spareOf (seat other) (root.child other).name
  spares : ∀ name ∈ names, margin.has (Worktree.spareOf (seat name) (root.child name).name) = false

namespace Ambit

/-- The place at which a file is written before it is moved to its own. -/
def spare (ambit : Ambit) (name : String) : Disk.Place :=
  Worktree.spareOf (ambit.seat name) (ambit.root.child name).name

def extent (ambit : Ambit) : Margin where
  has place := ambit.margin.has place ||
    ambit.names.any fun name => (ambit.seat name).isPrefixOf place
  below place more has := by
    rw [Bool.or_eq_true, any_eq_true] at has ⊢
    refine has.imp (ambit.margin.below place more) fun ⟨name, member, ahead⟩ => ⟨name, member, ?_⟩
    rw [ isPrefixOf_iff_prefix] at ahead ⊢
    exact ahead.trans (prefix_append place more)

/-- Past all that may change, the names lead to their places, beside which no temporary file stands,
and the records are kept in the margin, where there are no links. -/
structure Fits (ambit : Ambit) (disk : Disk) : Prop where
  posted : ∀ name ∈ ambit.names,
    (disk.without ambit.extent).Posted (ambit.root.child name) (ambit.seat name)
  free : ∀ name ∈ ambit.names, disk.get? (ambit.spare name) = none
  linkless : ambit.margin.Linkless disk
  records : ∀ path ∈ ambit.records, ambit.margin.Holds (disk.without ambit.extent) path

/-- Only what the names lead to and the margin have changed. -/
structure Frames (ambit : Ambit) (before after : Disk) : Prop where
  fits : ambit.Fits after
  elsewhere : ∀ place, ambit.margin.has place = false →
    (∀ name ∈ ambit.names, place ≠ ambit.seat name) → after.get? place = before.get? place

variable {ambit : Ambit} {disk after : Disk} {found : Option Entry}

theorem not_has_of_extent {place : Disk.Place} (out : ambit.extent.has place = false) :
    ambit.margin.has place = false ∧ ∀ name ∈ ambit.names, place ≠ ambit.seat name := by
  have out : (ambit.margin.has place ||
    ambit.names.any fun name => (ambit.seat name).isPrefixOf place) = false := out
  rw [Bool.or_eq_false_iff, any_eq_false] at out
  refine ⟨out.1, fun name member same => out.2 name member ?_⟩
  exact isPrefixOf_iff_prefix.mpr (same ▸ prefix_rfl)

namespace Fits

theorem holds (fits : ambit.Fits disk) {path : Path} (member : path ∈ ambit.records) :
    ambit.margin.Holds disk path :=
  (fits.records path member).mono ((Margin.keepsWays_without _ _).without _)

/-- What may change does not stand in the way. -/
theorem mono (fits : ambit.Fits disk) (alters : ambit.extent.Alters disk after)
    (free : ∀ name ∈ ambit.names, after.get? (ambit.spare name) = none)
    (linkless : ambit.margin.Linkless after) : ambit.Fits after where
  posted name member := (fits.posted name member).mono alters.keepsWays
  free := free
  linkless := linkless
  records path member := (fits.records path member).mono (alters.keepsWays.without _)

end Fits

theorem Frames.tends (frames : ambit.Frames before disk)
    (tends : ambit.margin.Tends disk after) : ambit.Frames before after where
  fits := by
    refine frames.fits.mono ⟨tends.alters.home, fun place out => ?_⟩ (fun name member => ?_)
      tends.linkless
    · exact tends.alters.elsewhere place (not_has_of_extent out).1
    · exact (tends.alters.elsewhere _ (ambit.spares name member)).trans
        (frames.fits.free name member)
  elsewhere place out apart :=
    (tends.alters.elsewhere place out).trans (frames.elsewhere place out apart)

theorem Frames.puts (frames : ambit.Frames before disk) (member : name ∈ ambit.names)
    (puts : Disk.Puts disk (ambit.seat name) found after) : ambit.Frames before after where
  fits := by
    refine frames.fits.mono ⟨puts.home, fun place out => ?_⟩ (fun other member' => ?_)
      fun place target link => ?_
    · exact puts.elsewhere place ((not_has_of_extent out).2 name member)
    · exact (puts.elsewhere _ (ambit.clear name member other member').symm).trans
        (frames.fits.free other member')
    · exact frames.fits.linkless place target (puts.links place target link)
  elsewhere place out apart :=
    (puts.elsewhere place (apart name member)).trans (frames.elsewhere place out apart)

end Ambit

section Frame

variable {ambit : Ambit} {host : Host}

/-! ### Trials -/

namespace Worktree

/-- A working tree in the ambit, all of whose pending files are of it. -/
structure Frames (ambit : Ambit) (before : Disk) (site : Worktree × Disk) : Prop where
  disk : ambit.Frames before site.2
  root : site.1.root = ambit.root
  pending : ∀ name ∈ site.1.pending, name ∈ ambit.names

theorem putFile_keeps_frame (member : name ∈ ambit.names) (wanted : Option Bytes) :
    (putFile ambit.root name wanted).Keeps (ambit.Frames before) := by
  intro disk frames
  have posted := (frames.fits.posted name member).mono (Margin.keepsWays_without _ _)
  exact (putFile_touches posted (frames.fits.free name member) wanted).imp
    (fun _ _ ⟨_, puts, _⟩ => frames.puts member puts) fun _ _ failed => frames.puts member failed.1

end Worktree

/-! ### Searches -/

namespace Engine

/-- An engine that keeps its records in the margin of the ambit, and has changed the disk there
and in the files of the ambit only. -/
structure Frames (ambit : Ambit) (before : Disk) (engine : Engine) : Prop where
  disk : ambit.Frames before engine.world.disk
  records : engine.records = ambit.records

namespace Frames

variable {engine : Engine}

section

variable (frames : engine.Frames ambit before)

include frames

theorem within : engine.Within ambit.margin :=
  within_of_records frames.disk.fits.linkless fun _ member =>
    frames.disk.fits.holds (frames.records ▸ member)

theorem notes (notes : Notes ambit.margin engine after) :
    after.Frames ambit before where
  disk := frames.disk.tends notes.tends
  records := by
    rw [← frames.records, Engine.records, notes.directory, notes.journal]
    rfl

theorem into (phase : Phase) : (engine.into phase).Frames ambit before := { frames with }

end

end Frames

theorem log_keeps_frame (kind : String) (data : List (String × Value)) :
    (log kind data).Keeps (Frames ambit before) := fun _ frames =>
  (log_ends frames.within kind data).mono fun _ => frames.notes

theorem enter_keeps_frame (phase : Phase) (data : List (String × Value)) :
    (enter phase data).Keeps (Frames ambit before) := fun _ frames =>
  (enter_ends frames.within phase data).mono fun _ => (frames.into phase).notes

theorem keepSnapshot_keeps_frame
    (tracked : ∀ name, progress.project.tracks name = true → name ∈ ambit.names) :
    (keepSnapshot progress).Keeps (Frames ambit before) := fun _ frames =>
  (keepSnapshot_ends frames.within fun name is => ambit.inner name (tracked name is)).mono
    fun _ => frames.notes

variable (still : host.SparesDisk)

include still

/-- Running the driver on the disk changes only the judge and the world, and leaves the disk. -/
theorem judgeDisk_keeps (root : Path)
    (same : ∀ engine judge world, property engine → world.disk = engine.world.disk →
      property { engine with judge, world }) : (judgeDisk host root).Keeps property := by
  refine keeps_iff.mpr fun engine so => ?_
  exact same engine _ _ so ((Judge.ran_run ..).disk.trans (still ..))

end Engine

namespace Session

/-- A session on the ambit: what is tracked and what is pending are their files. -/
structure Frames (ambit : Ambit) (before : Disk) (session : Session) : Prop where
  engine : session.engine.Frames ambit before
  root : session.worktree.root = ambit.root
  pending : ∀ name ∈ session.worktree.pending, name ∈ ambit.names
  proper : session.progress.project.files.IsProper
  tracked : ∀ name, session.progress.project.tracks name = true → name ∈ ambit.names

theorem onEngine_keeps_frame {α : Type} {step : Step Engine α}
    (keeps : step.Keeps (Engine.Frames ambit before)) :
    (onEngine step).Keeps (Frames ambit before) :=
  keeps.within (fun _ so => so.engine) fun _ _ so engine => { so with engine }

theorem calm_frame : Calm (fun _ => True) (Frames ambit before) where
  enter phase data := Step.Keeps.bind (keeps_modify fun _ so => { so with }) fun _ =>
    onEngine_keeps_frame (Engine.enter_keeps_frame phase data)
  log kind data := onEngine_keeps_frame (Engine.log_keeps_frame kind data)
  snapshot session so :=
    onEngine_keeps_frame (Engine.keepSnapshot_keeps_frame so.tracked) session so
  note _ _ _ _ _ so := { so with engine := { so.engine with } }

/-- All through a search only the files of the ambit change, and the records. -/
theorem steady_frame (still : host.SparesDisk) : Steady host (Frames ambit before) where
  toCalm := calm_frame
  trial candidate := by
    refine keeps_get.bind fun session => ?_
    have runs : (Trial.run host session.engine.driver {} candidate).Keeps
        (Bench.Holds ambit.root (· ∈ ambit.names) fun _ => ambit.Frames before) :=
      Trial.run_keeps (fun _ _ wanted member => Worktree.putFile_keeps_frame member wanted)
        (fun _ _ so => ⟨so, fun _ => so⟩) still candidate
    refine Step.Keeps.bind (runs.within ?_ ?_) fun _ => ?_
    · exact fun session so => ⟨⟨so.engine.disk, so.root, so.pending⟩, so.proper, so.tracked⟩
    · exact fun bench session so left =>
        ⟨⟨left.site.disk, so.engine.records⟩, left.site.root, left.site.pending, left.proper, left.tracked⟩
    · exact keeps_get.bind fun _ => (keeps_throw _).ite (keeps_pure _)

end Session

theorem Engine.search_keeps_frame (still : host.SparesDisk) (root : progress.project.root = ambit.root)
    (proper : progress.project.files.IsProper)
    (tracked : ∀ name, progress.project.tracks name = true → name ∈ ambit.names) :
    (search host progress).Keeps (Frames ambit before) := by
  intro engine frames
  have begins : (engine.begins progress).Frames ambit before :=
    ⟨frames, root, (fun _ member => by cases member), proper, tracked⟩
  refine search_ends_of ((Session.steady_frame still).rounds _ _ _ begins)
    (fun _ _ so => { so.engine with }) (fun phase session so => ?_) (fail_keeps enter_keeps_frame)
  exact (finish_ends_of (keepSnapshot_keeps_frame so.tracked _ so.engine) so.engine
    (fun _ => enter_keeps_frame phase _) _).imp (fun _ _ ended => { ended.1 with }) fun _ _ so => { so with }

/-! ### Before the search -/

namespace Engine

variable {root : Path} {engine : Engine}

/-- What a run from the beginning does before it searches: it loads its files and checks that the bug
reproduces on them. -/
def check (host : Host) (root : Path) (files : List Value) : Step Engine (Except Result Project) := do
  enter .initializing [("root", .text root.text)]
  guarded (verifyBaseline host root files)

theorem start_eq (host : Host) (root : Path) (files : List Value) : start host root files = (do
      match ← check host root files with
      | .error result => return result
      | .ok project =>
        let now := (← get).world.clock
        let progress : Progress :=
          { project, counters := { initialSize := project.size, startedAt := now } }
        keepSnapshot progress
        search host progress) := by
  rw [check, bind_assoc]
  rfl

/-- Where nothing is left to be saved, no snapshot is taken at the end. -/
theorem finish_keeps_of_saved (saved : ∀ engine, property engine → engine.unsaved = false)
    (enters : ∀ phase data, (enter phase data).Keeps property) (progress : Progress) (status : Phase)
    (size : Int) : (finish progress status size).Keeps property := by
  intro engine so
  rw [finish, ends_get_bind]
  dsimp only
  rw [if_neg (by simp [saved engine so])]
  exact (keeps_get.bind fun _ => (enters _ _).bind fun _ => keeps_get.bind fun _ =>
    keeps_pure _) engine so

/-- The check of a run keeps what its parts keep, and it loads the project that the run takes up. It
may come to an end with that project. -/
theorem check_ends (enters : ∀ phase data, (enter phase data).Keeps property)
    (logs : ∀ kind data, (log kind data).Keeps property) (judges : (judgeDisk host root).Keeps property)
    (finishes : ∀ progress : Progress, (Run.fresh root files).Takes host engine progress.project →
      (finish progress .interrupted progress.project.size).Keeps property) (so : property engine) :
    (check host root files).Ends
      (fun outcome after => property after ∧ ∀ project, outcome = .ok project →
        (Run.fresh root files).Takes host engine project)
      (fun _ => property) engine := by
  refine (enters _ _ engine so).and_eq.bind ?_ fun _ _ failed => failed.1
  rintro _ _ ⟨so, rfl⟩
  refine guarded_ends ?_ (fail_keeps enters)
  rw [verifyBaseline, ends_get_bind, ends_bind, ends_lift]
  refine ⟨fun paths chosen => ?_, fun _ _ => so⟩
  rw [ends_bind, ends_lift]
  refine ⟨fun project loaded => ?_, fun _ _ => so⟩
  have takes : (Run.fresh root files).Takes host engine project := .fresh chosen loaded
  refine (logs _ _ _ so).bind (fun _ _ so => ?_) fun _ _ => id
  refine (enters _ _ _ so).bind (fun _ _ so => ?_) fun _ _ => id
  refine (judges _ so).bind (fun verdict judged so => ?_) fun _ _ => id
  rw [ends_get_bind, ends_get_bind]
  split
  · exact (finishes _ takes _ so).bind (fun _ _ so => ⟨so, by simp⟩) fun _ _ => id
  · split
    · exact so
    · refine ⟨so, fun _ same => ?_⟩
      cases same
      exact takes

theorem start_keeps_frame (still : host.SparesDisk) (frames : engine.Frames ambit before)
    (chosen : ∀ paths, ((Run.fresh ambit.root files).begun engine).chooseFiles ambit.root files =
      .ok paths → paths ⊆ ambit.names) :
    (start host ambit.root files).Leaves (Frames ambit before) engine := by
  have divides : ∀ {project}, (Run.fresh ambit.root files).Takes host engine project →
      project.root = ambit.root ∧ ∀ name, project.tracks name = true → name ∈ ambit.names := by
    rintro project ⟨choice, loaded⟩
    have divides := (Run.divides_of_load choice loaded).1
    exact ⟨divides.root, fun name is => chosen _ choice ((divides.all name).mpr (.inl is))⟩
  rw [start_eq]
  refine (check_ends enter_keeps_frame log_keeps_frame ?_ ?_ frames).bind ?_ fun _ _ => id
  · exact judgeDisk_keeps still _ fun _ _ _ so disk => ⟨disk ▸ so.disk, so.records⟩
  · intro progress takes engine frames
    exact (finish_ends_of (keepSnapshot_keeps_frame (divides takes).2 engine frames) frames
      (fun _ => enter_keeps_frame _ _) _).imp (fun _ _ ended => ended.1) fun _ _ => id
  rintro (result | project) after ⟨frames, takes⟩
  · exact frames
  · have takes := takes project rfl
    obtain ⟨root, tracked⟩ := divides takes
    exact (keeps_get.bind fun _ => (keepSnapshot_keeps_frame tracked).bind fun _ =>
      search_keeps_frame still root takes.isProper tracked) after frames

/-- An engine that has changed nothing but its log since another. -/
structure Hushed (margin : Margin) (before engine : Engine) : Prop where
  tends : margin.Tends before.world.disk engine.world.disk
  journal : engine.journal = before.journal
  archive : engine.archive = before.archive
  saved : engine.unsaved = false

section Hushed

variable {margin : Margin} {before : Engine}
  (holds : ∀ journal, before.journal = some journal → margin.Holds before.world.disk journal.eventFile)

include holds

theorem log_keeps_hushed (kind : String) (data : List (String × Value)) :
    (log kind data).Keeps (Hushed margin before) := by
  intro engine hushed
  rw [log, ends_get_bind]
  split
  · next journal same =>
    have minds : World.Minds margin before.world.disk engine.world.cancelled engine.world :=
      ⟨hushed.tends, rfl⟩
    rw [onWorld, ends_within]
    exact (Journal.event_keeps (holds journal (hushed.journal ▸ same)) kind data _ minds).mono
      fun _ minds => { hushed with tends := minds.tends }
  · exact hushed

theorem enter_keeps_hushed (phase : Phase) (data : List (String × Value)) :
    (enter phase data).Keeps (Hushed margin before) :=
  Step.Keeps.bind (keeps_modify fun _ hushed => { hushed with }) fun _ =>
    log_keeps_hushed holds _ _

theorem check_keeps_hushed (still : host.SparesDisk) (root : Path) (files : List Value) :
    (check host root files).Keeps (Hushed margin before) := by
  have judges : (judgeDisk host root).Keeps (Hushed margin before) :=
    judgeDisk_keeps still root fun _ _ _ hushed disk => { hushed with tends := disk ▸ hushed.tends }
  have enters := enter_keeps_hushed holds
  exact fun engine hushed => (check_ends enters (log_keeps_hushed holds) judges (fun _ _ =>
    finish_keeps_of_saved (fun _ hushed => hushed.saved) enters _ _ _) hushed).imp
      (fun _ _ ends => ends.1) fun _ _ => id

end Hushed
end Engine

/-! ### Runs -/

namespace Run

variable {root : Path} {engine : Engine} {outcome : Except Failure Result}

theorem hushed_of_unchecked {margin : Margin} (still : host.SparesDisk)
    (saved : engine.unsaved = false) (linkless : margin.Linkless engine.world.disk)
    (holds : ∀ journal, engine.journal = some journal →
      margin.Holds engine.world.disk journal.eventFile)
    (unchecked : ∀ project checked,
      (Engine.check host root files).runOn engine ≠ (.ok (.ok project), checked))
    (ran : (Engine.start host root files).runOn engine = (outcome, after)) :
    Engine.Hushed margin engine after := by
  have begins : engine.Hushed margin engine := ⟨⟨.refl margin _, linkless⟩, rfl, rfl, saved⟩
  have checks := Engine.check_keeps_hushed holds still root files engine begins
  rw [Engine.start_eq, runOn_bind] at ran
  rcases checked : (Engine.check host root files).runOn engine with ⟨failure | result | project, last⟩
  · cases checked ▸ ran
    exact (ends_error checked).mp checks
  · cases checked ▸ ran
    exact (ends_ok checked).mp checks
  · exact absurd checked (unchecked project last)

/-- A run from the beginning, with a driver that changes nothing on disk, ends with everything in
place but the tracked files and the records, and with no temporary file; if it ends before the bug
was reproduced, and nothing was left to be saved, then nothing has changed but the log. -/
theorem start_frames
    (still : ∀ root driver count disk, (host.launch root driver count disk).disk = disk)
    (ran : (Engine.start host root files).runOn engine = (outcome, after)) :
    (∀ ambit : Ambit, ambit.Fits engine.world.disk → ambit.records = engine.records →
      ambit.root = root →
      (∀ paths, ((Run.fresh root files).begun engine).chooseFiles root files = .ok paths →
        paths ⊆ ambit.names) →
      (∀ place, ambit.margin.has place = false →
        (∀ name ∈ ambit.names, place ≠ ambit.seat name) →
        after.world.disk.get? place = engine.world.disk.get? place) ∧
      ∀ name ∈ ambit.names, after.world.disk.get? (ambit.spare name) = none) ∧
    (engine.unsaved = false → ∀ margin : Margin, margin.Linkless engine.world.disk →
      (∀ journal, engine.journal = some journal →
        margin.Holds engine.world.disk journal.eventFile) →
      (∀ project checked,
        (Engine.check host root files).runOn engine ≠ (.ok (.ok project), checked)) →
      after.archive = engine.archive ∧ ∀ place, margin.has place = false →
        after.world.disk.get? place = engine.world.disk.get? place) := by
  constructor
  · rintro ambit fits records rfl chosen
    have begins : engine.Frames ambit engine.world.disk := ⟨⟨fits, fun _ _ _ => rfl⟩, records.symm⟩
    have ends := Engine.start_keeps_frame still begins chosen
    have frames : after.Frames ambit engine.world.disk := by
      rcases outcome with failure | result
      · exact (Step.ends_error ran).mp ends
      · exact (Step.ends_ok ran).mp ends
    exact ⟨frames.disk.elsewhere, frames.disk.fits.free⟩
  · intro saved margin linkless holds unchecked
    have hushed := hushed_of_unchecked still saved linkless holds unchecked ran
    exact ⟨hushed.archive, hushed.tends.alters.elsewhere⟩

end Run

end Frame

/-! ### Runs on the small project -/

namespace Sample

/-- An engine for the small project, beside whose file there is another that is not tracked. -/
def attended : Engine :=
  { engine with
    world :=
      { disk :=
          { home := ["work"]
            entries := [(["work", "project"], .dir),
              (["work", "project", "a"], .file (.ofBytes lines) Disk.newMode),
              (["work", "project", "b"], .file (.ofBytes lines) Disk.newMode)] } } }

def ambit : Ambit where
  root := root
  names := ["a"]
  seat _ := ["work", "project", "a"]
  margin := margin
  records := [Path.ofText "snaps"]
  inner := grounds.inner
  clear := layout.clear
  spares := grounds.spares

theorem ambit_fits : ambit.Fits attended.world.disk where
  posted name member := by
    cases mem_singleton.mp member
    exact ⟨by decide +kernel, ⟨by decide, by decide⟩, by decide +kernel, by decide +kernel⟩
  free := by decide +kernel
  linkless := by
    rintro place target member
    simp [attended] at member
  records path member := by
    cases mem_singleton.mp member
    exact ⟨Path.ofText "snaps", ["work", "snaps"], [], ⟨by decide, by decide⟩, by decide +kernel,
      rfl, rfl, by simp⟩

/-- A run that reduces the file leaves the one beside it, and a run on which the bug does not
reproduce leaves both. -/
theorem start_frames_attended :
    (∃ result after, (Engine.start host root [.text "a"]).runOn attended = (.ok result, after) ∧
      result.finalSize = 0 ∧ after.world.disk.get? ["work", "project", "b"] =
        attended.world.disk.get? ["work", "project", "b"] ∧
      after.world.disk.get? (ambit.spare "a") = none) ∧
    ∃ failure after, (Engine.start mute root [.text "a"]).runOn attended = (.error failure, after) ∧
      after.archive = attended.archive ∧ after.world.disk.get? ["work", "project", "a"] =
        attended.world.disk.get? ["work", "project", "a"] := by
  constructor
  · have reduces : (Engine.start host root [.text "a"]).Ends (fun result _ => result.finalSize = 0)
        (fun _ _ => False) attended := by
      decide +kernel
    obtain ⟨result, after, ran, size⟩ := reduces.exists_ok
    have chosen : ∀ paths, ((Run.fresh root [.text "a"]).begun attended).chooseFiles root [.text "a"] =
        .ok paths → paths ⊆ ambit.names := by
      have same : ((Run.fresh root [.text "a"]).begun attended).chooseFiles root [.text "a"] =
          .ok ["a"] := by
        decide +kernel
      intro paths chosen
      cases same.symm.trans chosen
      exact List.Subset.refl _
    obtain ⟨elsewhere, free⟩ :=
      (Run.start_frames (fun _ _ _ _ => rfl) ran).1 ambit ambit_fits rfl rfl chosen
    exact ⟨result, after, ran, size, elsewhere _ rfl (by decide), free "a" (by decide)⟩
  · rcases ran : (Engine.start mute root [.text "a"]).runOn attended with ⟨failure | result, after⟩
    · have unchecked : (Engine.check mute root [.text "a"]).Ends (fun outcome _ => outcome.isOk = false)
          (fun _ _ => True) attended := by
        decide +kernel
      obtain ⟨archive, same⟩ := (Run.start_frames (fun _ _ _ _ => rfl) ran).2 rfl margin
        ambit_fits.linkless (fun _ same => by cases same) fun project checked passed => by
          rw [Step.ends_ok passed] at unchecked
          cases unchecked
      exact ⟨failure, after, rfl, archive, same _ rfl⟩
    · exfalso
      have fails : (Engine.start mute root [.text "a"]).Ends (fun _ _ => False) (fun _ _ => True)
          attended := by
        decide +kernel
      exact (Step.ends_ok ran).mp fails

/-- An engine for the small project with a link to nowhere under the temporary name of its file. -/
def snared : Engine :=
  { engine with
    world :=
      { disk :=
          { home := ["work"]
            entries := [(["work", "project"], .dir),
              (["work", "project", "a"], .file (.ofBytes lines) Disk.newMode),
              (["work", "project", Worktree.temporaryName "a"], .link "b")] } } }

/-- No file has the temporary name of the tracked one, but a link to nowhere has it. The run writes
through it, and leaves a file that was not there. -/
theorem start_snared_strays :
    (∀ root driver count disk, (host.launch root driver count disk).disk = disk) ∧
    snared.world.disk.isFile (root.child (Worktree.temporaryName "a")) = .ok false ∧
    snared.world.disk.get? ["work", "project", "b"] = none ∧
    ∃ result after, (Engine.start host root [.text "a"]).runOn snared = (.ok result, after) ∧
      result.status = .fixpoint ∧
      after.world.disk.get? ["work", "project", "b"] = some (.file (.ofBytes []) Disk.newMode) := by
  have strays : (Engine.start host root [.text "a"]).Ends
      (fun result after => result.status = .fixpoint ∧
        after.world.disk.get? ["work", "project", "b"] = some (.file (.ofBytes []) Disk.newMode))
      (fun _ _ => False) snared := by
    decide +kernel
  exact ⟨fun _ _ _ _ => rfl, by decide +kernel, by decide +kernel, strays.exists_ok⟩

end Sample
end Whittle
