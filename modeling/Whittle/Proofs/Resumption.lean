import Whittle.Proofs.Fixpoint
import Whittle.Proofs.Interruption
import Whittle.Proofs.Search.Saved

/-!
Going on from the snapshots of a run. A run from the beginning, however it ends, leaves a stock of
snapshots, each of the moment at which it was taken (`Run.start_closes`). From such a stock a
later run goes on: it finds the newest snapshot, and writes its files, on which the driver is
run first of all (`Engine.resume_hears`). Since the bug was reproduced on these files before, a
driver that answers by them reproduces it again (`Run.start_resumable`).
-/

namespace Whittle

open List

open Disk (Place)

variable {archive : Archive} {folder : Place} {files : List Value} {after : Engine}
  {kept : List (Int × Progress)} {entry : Int × Progress} {progress : Progress} {failure : Failure}
  {hearing : Hearing} {answer : (String → Option Bytes) → Bool} {result : Except Failure Result}

section

variable {grounds : Grounds} {host : Host} {root : Path} {engine : Engine}

/-! ### The start -/

/-- A run from the beginning is well equipped. Its files have places of their own on the grounds, and
can be written. Its archive is new, with an empty directory to which the way does not lead through its
own contents, and its log is kept beside the snapshots. The names of the files and of the grammars
tell them apart, and names can be written down. -/
structure Run.Equips (grounds : Grounds) (folder : Place) (root : Path) (files : List Value)
    (engine : Engine) : Prop where
  idle : engine.standing = none
  silent : engine.trail = []
  saved : engine.unsaved = false
  fits : grounds.Fits engine.world.disk
  records : engine.records = grounds.records
  suits : (Run.fresh root files).Suits grounds engine
  writable : grounds.toLayout.Writable
  archive : ∃ directory interval retention,
    Archive.create directory interval retention = .ok engine.archive
  reaches : grounds.margin.Reaches engine.world.disk engine.archive.directory folder
  outside : ∀ more, more ≠ [] → ¬ engine.world.disk.IsFixed (folder ++ more)
  empty : ∀ name, engine.world.disk.get? (folder ++ [name]) = none
  logs : engine.LogsAside grounds.margin folder
  tree : engine.world.disk.IsTree
  distinct : engine.world.disk.IsDistinct
  read : root.IsRead
  whole : ∀ name ∈ grounds.names, Text.IsWhole name
  grammars : engine.registry.names.Nodup

/-- Where a run stands when it begins to search: with all files as they are on disk. -/
structure Progress.Opens (grounds : Grounds) (host : Host) (engine : Engine) (progress : Progress) :
    Prop where
  bookmark : progress.bookmark = {}
  counters : ∃ now, progress.counters = { initialSize := progress.project.size, startedAt := now }
  shows : grounds.toLayout.Shows engine.world.disk (progress.project.contents.get?)
  whole : progress.project.removed = []
  readable : progress.project.IsReadable host.parsers engine.registry

/-- Where a run that began with some progress stood when a snapshot was taken. -/
def Engine.savedAs (first : Progress) (engine : Engine) (id : Int) : Progress :=
  (engine.standing.map (·.savedAs id)).getD first

def Depot.of (grounds : Grounds) (folder : Place) (host : Host) (first : Progress) : Depot where
  grounds
  folder
  parsers := host.parsers
  first := first.project

/-- How a run from the beginning ends: without a snapshot, or with some of the moments at which they
were taken. -/
def Engine.Closes (grounds : Grounds) (folder : Place) (host : Host) (engine after : Engine) : Prop :=
  after.archive.written = [] ∨ ∃ first kept, first.Opens grounds host engine ∧
    after.Stocks (.of grounds folder host first) kept ∧
    ∀ entry ∈ kept, after.savedAs first entry.1 = entry.2

theorem Project.Divides.congr {root : Path} {initial names : List String} {project : Project}
    (divides : project.Divides root initial) (same : ∀ name, name ∈ initial ↔ name ∈ names) :
    project.Divides root names :=
  { divides with all := fun name => (same name).symm.trans (divides.all name) }

theorem Archive.of_create {directory : Path} {interval retention : Value}
    (created : create directory interval retention = .ok archive) :
    archive.lastId = 0 ∧ archive.written = [] ∧ archive.retention.lt (.int 1) = false := by
  unfold create at created
  split at created
  · cases created
  · split at created
    · cases created
    · next ample =>
      rw [← Except.ok.inj created]
      exact ⟨rfl, rfl, Bool.eq_false_iff.mpr ample⟩

namespace Run

theorem Equips.stocked (equips : Equips grounds folder root files engine) :
    Archive.Stocked grounds.margin folder [] engine.archive engine.world.disk := by
  obtain ⟨directory, interval, retention, created⟩ := equips.archive
  obtain ⟨natural, -, ample⟩ := Archive.of_create created
  exact {
    shelf := .empty equips.empty
    tree := equips.tree
    distinct := equips.distinct
    linkless := equips.fits.linkless
    reaches := equips.reaches
    outside := equips.outside
    counted := fun _ member => by cases member
    natural := Int.le_of_eq natural.symm
    ample }

theorem Equips.awaits (equips : Equips grounds folder root files engine) :
    engine.Awaits grounds engine.outfit :=
  ⟨⟨equips.fits, equips.records, rfl, rfl⟩, equips.idle, by rw [equips.silent]; rfl⟩

/-- The directory of snapshots is still empty, and nothing is left to be saved. -/
def Vacant (grounds : Grounds) (folder : Disk.Place) (archive : Archive) (after : Engine) : Prop :=
  after.Houses grounds folder [] archive ∧ after.archive = archive ∧ after.unsaved = false

/-- The check of a run leaves its directory of snapshots empty. -/
theorem check_ends_vacant (still : host.IsStill) (equips : Equips grounds folder root files engine) :
    (Engine.check host root files).Ends
      (fun outcome after => Vacant grounds folder engine.archive after ∧
        ∀ project, outcome = .ok project → (fresh root files).Takes host engine project)
      (fun _ => Vacant grounds folder engine.archive) engine := by
  have enters : ∀ phase data,
      (Engine.enter phase data).Keeps (Vacant grounds folder engine.archive) :=
    fun phase data after so => (Engine.enter_keeps_houses phase data after so.1).and
      (Engine.enter_keeps (fun _ _ _ so => so) phase data after so.2)
  refine Engine.check_ends enters ?_ ?_ (fun _ _ => Engine.finish_keeps_of_saved (fun _ so => so.2.2)
    enters _ _ _) ⟨⟨equips.fits, equips.stocked, equips.logs⟩, rfl, equips.saved⟩
  · exact fun kind data after so => (Engine.log_keeps_houses kind data after so.1).and
      (Engine.log_keeps (fun _ _ so => so) kind data after so.2)
  · refine Engine.judgeDisk_keeps still.disk root fun after judge world so disk => ⟨?_, so.2⟩
    exact ⟨disk ▸ so.1.fits, disk ▸ so.1.stocked, fun journal same => disk ▸ so.1.logs journal same⟩

/-- The check of a run, if it succeeds, leaves it ready to search. -/
theorem check_begins (still : host.IsStill) (equips : Equips grounds folder root files engine) :
    (Engine.check host root files).Ends (Engine.Checked grounds engine.outfit id)
      (fun _ after => after.standing = none) engine := by
  have awaits := equips.awaits
  obtain ⟨rfl, chosen⟩ := equips.suits
  rw [Engine.check]
  refine (Engine.enter_ends awaits.within _ _).and_eq.bind ?_
    fun _ _ failed => failed.1.standing.trans awaits.unsearched
  rintro _ _ ⟨notes, rfl⟩
  exact Engine.guarded_ends (Engine.verifyBaseline_ends (still.undisturbed _ _ _)
    ((awaits.into rfl).notes notes) chosen) Engine.fail_keeps_standing

theorem begun_registry (run : Run) (engine : Engine) :
    (run.begun engine).registry = engine.registry := by
  have kept : ∀ phase data, (Engine.enter phase data).Keeps (·.registry = engine.registry) :=
    Engine.enter_keeps fun _ _ _ so => so
  cases run with
  | fresh root files => exact Step.keeps_iff.mp (kept _ _) engine rfl
  | resumed => exact Step.keeps_iff.mp (kept _ _) engine rfl

/-- A run that was checked begins with all files as they were on disk. -/
theorem opens_of_load {paths : List String} {project : Project} {now : Float}
    (equips : Equips grounds folder root files engine)
    (chosen : ((fresh root files).begun engine).chooseFiles root files = .ok paths)
    (loaded : Project.load host.parsers ((fresh root files).begun engine).registry
      ((fresh root files).begun engine).world.disk root paths = .ok project) :
    Progress.Opens grounds host engine
      { project, counters := { initialSize := project.size, startedAt := now } } where
  bookmark := rfl
  counters := ⟨now, rfl⟩
  shows := by
    obtain ⟨rfl, names⟩ := equips.suits
    have notes := Step.ends_const.mp (Engine.enter_ends equips.awaits.within .initializing
      [("root", .text grounds.root.text)])
    have shows := (Grounds.bears_of_load ((equips.awaits.into rfl).notes notes).fits.layout
      (names paths chosen) loaded).2
    intro name member
    have same : engine.world.disk.get? (grounds.seat name) = _ :=
      (notes.tends.alters.elsewhere _ (grounds.seats name member)).symm
    rw [Layout.bytes, same]
    exact shows name member
  whole := (divides_of_load chosen loaded).2
  readable := by
    obtain ⟨pairs, -, made⟩ := bind_eq_ok_iff.mp loaded
    rw [begun_registry] at made
    exact Project.isReadable_of_ofContents made

/-- A run from the beginning, however it ends, leaves snapshots of the moments at which they were
taken. -/
theorem start_closes (still : host.IsStill) (equips : Equips grounds folder root files engine) :
    (Engine.start host root files).Leaves (Engine.Closes grounds folder host engine) engine := by
  obtain ⟨directory, interval, retention, created⟩ := equips.archive
  have unwritten := (Archive.of_create created).2.1
  rw [Engine.start_eq]
  refine ((check_begins still equips).and (check_ends_vacant still equips)).bind ?_
    fun _ after so => .inl (so.2.2.1 ▸ unwritten)
  rintro (result | project) checked ⟨begins, ⟨houses, archive, -⟩, takes⟩
  · exact .inl (archive ▸ unwritten)
  · change checked.Begins grounds engine.outfit project at begins
    obtain ⟨chosen, loaded⟩ := takes project rfl
    obtain ⟨rfl, names⟩ := equips.suits
    rw [ends_get_bind]
    dsimp only
    let first : Progress :=
      { project, counters := { initialSize := project.size, startedAt := checked.world.clock } }
    let depot := Depot.of grounds folder host first
    have opens : first.Opens grounds host engine := opens_of_load equips chosen loaded
    have divides : first.project.Divides grounds.root grounds.names :=
      (divides_of_load chosen loaded).1.congr (names _ chosen)
    have nameable : Nameable grounds.root grounds.names := by
      obtain ⟨root, named⟩ := nameable_of_load equips.read (fun name member =>
        equips.whole name ((names _ chosen name).mp member)) chosen loaded
      exact ⟨root, fun name member => named name ((names _ chosen name).mpr member)⟩
    have holds : depot.Holds checked.judge.hearings first := by
      obtain ⟨hearing, found, tells⟩ := begins.heard
      have reproduces := find?_some found
      exact ⟨divides, .start, hearing, mem_of_find?_eq_some found, reproduces, tells⟩
    have stocks : checked.Stocks depot [] :=
      ⟨archive ▸ houses, archive ▸ unwritten, (fun _ member => by cases member), .nil⟩
    have recordable : first.IsRecordable :=
      Depot.recordable stocks.houses.fits nameable holds.divides (.inl rfl)
    have only : ∀ kept : List (Int × Progress), (kept = [] ∨ ∃ id, kept = [] ++ [(id, first)]) →
        ∀ entry ∈ kept, entry.2 = first := by
      rintro kept (rfl | ⟨id, rfl⟩) <;> simp
    refine ((Engine.keepSnapshot_stocks stocks recordable holds fun _ member => by cases member).and
      (Engine.keepSnapshot_ends begins.within begins.bears.inner)).bind ?_ ?_
    · rintro _ saved ⟨⟨kept, gains, stocks⟩, notes⟩
      refine (Engine.search_ends_saved still equips.writable rfl nameable (begins.notes notes) stocks
        (only kept gains) (notes.judge ▸ holds) (.inl rfl)).imp ?_ ?_
      all_goals
        rintro _ after ⟨standing, kept, left, stocks, saved⟩
        refine .inr ⟨first, kept, opens, stocks, fun entry member => ?_⟩
        rw [Engine.savedAs, left]
        exact saved entry member
    · rintro _ after ⟨⟨kept, gains, stocks⟩, notes⟩
      refine .inr ⟨first, kept, opens, stocks, fun entry member => ?_⟩
      rw [Engine.savedAs, notes.standing.trans begins.unsearched]
      exact (only kept gains entry member).symm

end Run

/-! ### Going back to a snapshot -/

/-- Tracked files are on the grounds, so that the driver reads the files of a project in whole. -/
theorem Project.Divides.reading_eq {project : Project} {disk : Disk}
    (divides : project.Divides grounds.root grounds.names) (fits : grounds.toLayout.Fits disk)
    (shows : grounds.toLayout.Shows disk (project.contents.get?)) :
    grounds.toLayout.reading disk = project.contents.get? := by
  refine fits.reading_eq shows fun name out => ?_
  rw [← Option.not_isSome_iff_eq_none, ← Project.tracks_eq]
  exact fun tracked => out ((divides.all name).mpr (.inl tracked))

namespace Engine

variable {point : Checkpoint} {id : Int} {earlier : List Hearing}

theorem map_removedNames {removed : List Value}
    (texts : ∀ value ∈ removed, ∃ name, value = .text name) :
    (removedNames removed).map .text = removed := by
  induction removed with
  | nil => rfl
  | cons value rest ih =>
    obtain ⟨name, rfl⟩ := texts value mem_cons_self
    exact congrArg (.text name :: ·) (ih (forall_mem_cons.mp texts).2)

/-- The newest snapshot in stock is found again. -/
theorem loadSnapshot_restores (houses : engine.Houses grounds folder kept archive)
    (same : engine.archive.directory = archive.directory) (last : kept.getLast? = some entry) :
    loadSnapshot.Ends (fun point after => point.Restores entry.1 entry.2 ∧
      ∃ archive, after = { engine with archive }) (fun _ _ => False) engine := by
  obtain ⟨point, later, resumed, restores⟩ := Archive.Shelf.exists_resume
    (same ▸ houses.stocked.shelf) last houses.stocked.tree houses.stocked.distinct
    houses.stocked.linkless_inside
  rw [loadSnapshot, ends_get_bind]
  dsimp only
  rw [resumed, ends_bind, ends_lift_ok, ends_bind, ends_set, ends_pure]
  exact ⟨restores, later, rfl⟩

/-- The files of a snapshot are written, and those that were removed are removed again. -/
theorem installSnapshot_restores (fits : grounds.toLayout.Fits engine.world.disk)
    (distinct : engine.world.disk.IsDistinct) (writable : grounds.toLayout.Writable)
    (restores : point.Restores id progress)
    (divides : progress.project.Divides grounds.root grounds.names) :
    (installSnapshot point grounds.root).Ends
      (fun _ after => ∃ disk, after = { engine with world := { engine.world with disk } } ∧
        grounds.toLayout.Fits disk ∧ disk.IsDistinct ∧
        grounds.toLayout.Shows disk (progress.project.contents.get?))
      (fun _ _ => False) engine := by
  have texts : ∀ value ∈ point.record.removed, ∃ name, value = .text name := by
    intro value member
    obtain ⟨name, -, rfl⟩ := mem_map.mp (restores.removed.mem_iff.mp member)
    exact ⟨name, rfl⟩
  have removed := removedNames_perm restores.removed
  have members : ∀ name, name ∈ grounds.names ↔
      name ∈ point.contents.names ∨ name ∈ removedNames point.record.removed := by
    intro name
    rw [divides.all, ← removed.mem_iff, Listing.mem_names_iff, restores.contents, Project.tracks_eq]
  have gone : ∀ name ∈ removedNames point.record.removed,
      point.contents.get? name = none := by
    intro name away
    rw [restores.contents, ← Option.not_isSome_iff_eq_none, ← Project.tracks_eq]
    exact fun tracked => divides.apart name tracked (removed.mem_iff.mp away)
  have inside : ∀ name ∈ point.contents.names, name ∈ grounds.names :=
    fun name is => (members name).mpr (.inl is)
  have installs := Worktree.install_ends
    (Layout.putFiles_ends fits (fun name is => inside name (mem_sortNames.mp is)) _)
    (fun _ put => ⟨put.1.fits, fun name is => put.1.bytes name (inside name is) (mem_sortNames.mpr is)⟩)
    members gone
  rw [map_removedNames texts] at installs
  rw [installSnapshot, ends_bind, ends_attempt, onWorld, ends_within,
    ends_within]
  refine (installs.and (Worktree.confined_install Disk.isLasting_isDistinct point.contents
    point.record.removed ({ root := grounds.root }, engine.world.disk) distinct)).imp ?_ ?_
  · rintro _ site ⟨⟨_, -, -, fits, shows⟩, distinct⟩
    refine ⟨site.2, rfl, fits, distinct, fun name member => ?_⟩
    rw [shows name member, restores.contents]
  · rintro _ _ ⟨⟨_, -, -, not⟩ | not, -⟩ <;> exact absurd writable not

/-- The project of a snapshot can be read as it was when the snapshot was taken. -/
theorem exists_projectOf {registry : Grammar.Registry} (restores : point.Restores id progress)
    (readable : progress.project.IsReadable host.parsers registry) (root : Path) :
    ∃ project, projectOf host registry point root = .ok project := by
  have reads : ∀ file ∈ point.contents,
      ∃ tree, Project.Reads host.parsers registry file.1 file.2 tree := by
    rintro ⟨name, data⟩ member
    have found := Listing.get?_of_mem restores.proper member
    rw [restores.contents, Project.get?_contents, Option.map_eq_some_iff] at found
    obtain ⟨file, found, rfl⟩ := found
    exact ⟨file.tree, readable.reads name file found⟩
  obtain ⟨project, made⟩ :=
    Project.exists_ofContents root (removedNames point.record.removed) reads
  refine ⟨project, ?_⟩
  rw [projectOf, made]

/-- The first that the driver was heard on since, the disk showed the project of some progress. -/
def HearsFirst (layout : Layout) (progress : Progress) (earlier : List Hearing) (hearing : Hearing)
    (judge : Judge) : Prop :=
  hearing :: earlier <:+ judge.hearings ∧ hearing.Of layout (progress.project.contents.get?)

/-- A run could not log that it goes on from a snapshot. -/
def Unopened (before : Engine) (failure : Failure) (after : Engine) : Prop :=
  (enter .resuming [("directory", .text before.archive.directory.text)]).runOn before =
    (.error failure, after)

/-- The driver was run where the disk showed the project of some progress, and gave no verdict. That
is the failure, or else that it could not be logged. -/
def IsMute (host : Host) (layout : Layout) (progress : Progress) (driver : String) (judge : Judge)
    (failure : Failure) (after : Engine) : Prop :=
  ∃ world cause, layout.reading world.disk = progress.project.contents.get? ∧
    (judge.run host layout.root driver true world).1 = .error cause ∧
    (failure = cause ∨ after.Unlogged (fun _ => False) failure)

/-- How a run that goes on from a snapshot can fail: not for want of the snapshot, unless the bug does
not reproduce on it. -/
def Balks (host : Host) (layout : Layout) (progress : Progress) (driver : String) (judge : Judge)
    (failure : Failure) (after : Engine) : Prop :=
  failure.isOrdinary = true ∧ after.judge.hearings = judge.hearings ∧
      IsMute host layout progress driver judge failure after ∨
    ∃ hearing, HearsFirst layout progress judge.hearings hearing after.judge ∧
      (failure.isOrdinary = true ∨ hearing.verdict.reproduces = false ∧ hearing.cancelled = false)

theorem fail_balks {layout : Layout} {driver title : String} {judge : Judge}
    (titled : failure.title? = some title)
    (balks : Balks host layout progress driver judge failure engine) :
    (fail failure title).Ends (fun _ => Balks host layout progress driver judge failure)
      (Balks host layout progress driver judge) engine := by
  refine (fail_goes engine).imp ?_ ?_
  · rintro _ after ⟨_, goes⟩
    rw [Balks, goes.judge]
    refine balks.imp_left ?_
    rintro ⟨ordinary, unheard, world, cause, shows, ran, same | lost⟩
    · exact ⟨ordinary, unheard, world, cause, shows, ran, .inl same⟩
    · simp [lost.untitled] at titled
  · rintro other after ⟨_, goes, lost⟩
    have ordinary := Failure.isOrdinary_of_untitled lost.untitled
    rw [Balks, goes.judge]
    refine balks.imp ?_ ?_
    · rintro ⟨-, unheard, world, cause, shows, ran, -⟩
      exact ⟨ordinary, unheard, world, cause, shows, ran, .inr (lost.imp (by simp))⟩
    · rintro ⟨hearing, hears, -⟩
      exact ⟨hearing, hears, .inl ordinary⟩

end Engine

/-! ### Runs that go on from others -/

/-- A driver answers by the bytes of the files: it reproduces the bug only where it should, and
everywhere where it should unless it is stopped. -/
def Hearing.Answers (layout : Layout) (answer : (String → Option Bytes) → Bool) (hearing : Hearing) :
    Prop :=
  (hearing.verdict.reproduces = true → answer (layout.reading hearing.disk) = true) ∧
    (hearing.cancelled = false → answer (layout.reading hearing.disk) = true →
      hearing.verdict.reproduces = true)

theorem Hearing.answers_of_eq {layout : Layout}
    (same : hearing.verdict.reproduces = answer (layout.reading hearing.disk)) :
    hearing.Answers layout answer :=
  ⟨same.symm.trans, fun _ => same.trans⟩

namespace Run

/-- A run that takes up some progress: the driver sees its files first of all, and is heard on them. It
is not heard only if the run cannot log that it begins, or if the driver gives no verdict on them. Where
it answers by the files, the run does not fail for want of a snapshot. -/
def TakesUp (host : Host) (layout : Layout) (answer : (String → Option Bytes) → Bool)
    (progress : Progress) (before : Engine) (result : Except Failure Result) (after : Engine) : Prop :=
  ∃ heard, after.judge.hearings = heard ++ before.judge.hearings ∧
    (∀ hearing, heard.getLast? = some hearing →
      layout.reading hearing.disk = progress.project.contents.get?) ∧
    (heard = [] → ∃ failure, result = .error failure ∧ (before.Unopened failure after ∨
      Engine.IsMute host layout progress before.driver before.judge failure after)) ∧
    ((∀ hearing ∈ heard, hearing.Answers layout answer) → ∀ fault, result ≠ .error (.resume fault))

/-- A run takes up the progress that the driver is run on first of all, if the bug was reproduced on its
files before. -/
theorem takesUp_of_hears {before : Engine} (divides : progress.project.Divides grounds.root grounds.names)
    (answered : answer (progress.project.contents.get?) = true)
    (hears : Engine.HearsFirst grounds.toLayout progress before.judge.hearings hearing after.judge)
    (fails : ∀ fault, result = .error (.resume fault) →
      hearing.verdict.reproduces = false ∧ hearing.cancelled = false) :
    TakesUp host grounds.toLayout answer progress before result after := by
  obtain ⟨later, heard⟩ := hears.1
  have reading := divides.reading_eq hears.2.fits hears.2.shows
  refine ⟨later ++ [hearing], by simp [← heard], ?_, by simp, ?_⟩
  · intro first last
    rw [getLast?_concat, Option.some_inj] at last
    rw [← last, reading]
  · rintro answers fault rfl
    obtain ⟨not, ran⟩ := fails fault rfl
    have again := (answers hearing (by simp)).2 ran (by rw [reading, answered])
    rw [not] at again
    cases again

end Run

section

variable (still : host.IsStill) (writable : grounds.toLayout.Writable)
  (houses : engine.Houses grounds folder kept archive)
  (same : engine.archive.directory = archive.directory) (last : kept.getLast? = some entry)
  (divides : entry.2.project.Divides grounds.root grounds.names)
  (readable : entry.2.project.IsReadable host.parsers engine.registry)
  (rooted : Path.ofText grounds.root.text = grounds.root)

include still writable houses same last divides readable rooted

namespace Engine

/-- The check of a run from a snapshot in stock runs the driver on its project. -/
theorem verifySnapshot_hears : (verifySnapshot host).Ends
      (fun _ after => ∃ hearing, HearsFirst grounds.toLayout entry.2 engine.judge.hearings hearing
        after.judge)
      (Balks host grounds.toLayout entry.2 engine.driver engine.judge) engine := by
  rw [verifySnapshot]
  refine (loadSnapshot_restores houses same last).bind ?_ fun _ _ => False.elim
  rintro point _ ⟨restores, archive, rfl⟩
  have root : Path.ofText point.record.root = grounds.root := by
    rw [restores.root, divides.root, rooted]
  dsimp only
  rw [root]
  have fits : grounds.toLayout.Fits ({ engine with archive } : Engine).world.disk :=
    houses.fits.layout
  refine (installSnapshot_restores fits houses.stocked.distinct writable restores divides).bind ?_
    fun _ _ => False.elim
  rintro _ _ ⟨disk, rfl, fits', distinct, shows⟩
  obtain ⟨project, made⟩ := exists_projectOf restores readable grounds.root
  rw [ends_get_bind]
  dsimp only
  rw [made, ends_bind, ends_lift_ok]
  refine ends_vet fun left judged ran => ?_
  cases ran with
  | @heard verdict after =>
    let hearing : Hearing := { disk, verdict, cancelled := after.cancelled }
    have hears : HearsFirst grounds.toLayout entry.2 engine.judge.hearings hearing
        (engine.judge.hears hearing) := ⟨suffix_rfl, fits', shows⟩
    refine ⟨fun _ _ _ _ => ?_, fun going not => .inr ⟨hearing, hears, .inr ⟨not, going⟩⟩,
      fun _ _ => ⟨hearing, hears⟩⟩
    refine (finish_goes _ _ _ _).imp (fun _ _ ends => ⟨hearing, ends.1.judge ▸ hears⟩) ?_
    rintro failure after (⟨goes, lost⟩ | ⟨goes, lost⟩)
    all_goals
      exact .inr ⟨hearing, goes.judge ▸ hears, .inl (Failure.isOrdinary_of_untitled lost.untitled)⟩
  | unheard _ _ starts =>
    refine .inl ⟨(Host.Admits.of_start starts).isOrdinary still not_mem_nil, rfl, ?_⟩
    exact ⟨_, _, divides.reading_eq fits' shows, congrArg Prod.fst judged, .inl rfl⟩

/-- A run that goes on from a snapshot in stock, if it can log that, runs the driver first of all on its
project, and does not fail for want of the snapshot unless the bug does not reproduce there. -/
theorem resume_hears : (resume host).Ends
      (fun _ after => ∃ hearing, HearsFirst grounds.toLayout entry.2 engine.judge.hearings hearing
        after.judge)
      (fun failure after => Unopened engine failure after ∨
        Balks host grounds.toLayout entry.2 engine.driver engine.judge failure after)
      engine := by
  have kept : ∀ data, (enter .resuming data).Keeps fun after =>
      after.archive.directory = archive.directory ∧ after.registry = engine.registry :=
    enter_keeps (fun _ _ _ so => so) .resuming
  rw [resume, ends_get_bind]
  refine ((enter_keeps_houses .resuming _ engine houses).and ((kept _ engine ⟨same, rfl⟩).and
    ((enter_goes engine .resuming _).and (Step.ends_self _ engine)))).bind ?_
      fun _ _ failed => .inl failed.2.2.2
  rintro _ entered ⟨houses, ⟨same, registry⟩, goes, -⟩
  rw [← goes.judge, ← goes.driver]
  refine (guarded_fails (((verifySnapshot_hears still writable houses same last divides
    (registry ▸ readable) rooted).and (verifySnapshot_vets entered fun _ _ _ _ _ _ => trivial)).imp
    (fun _ _ => id) fun _ _ => And.left) fun _ _ _ => fail_balks).bind ?_ fun _ _ => .inr
  rintro (result | ⟨point, project⟩) checked ⟨⟨hearing, hears⟩, _, _, _, _, loaded, made, vetted⟩
  · exact ⟨hearing, hears⟩
  obtain ⟨-, -, -, -, going⟩ := vetted
  rw [ends_get_bind, ends_bind, ends_lift]
  refine ⟨fun counters _ => ?_, fun failure failed => .inr (.inr ⟨hearing, hears, .inl
    (Failure.isOrdinary_of_isAmong (confined_mapError (fun _ => rfl) failure failed) not_mem_nil)⟩)⟩
  refine (log_goes checked _ _).bind ?_ fun _ _ failed => .inr (.inr ⟨hearing,
    failed.1.judge ▸ hears, .inl (Failure.isOrdinary_of_untitled failed.2.untitled)⟩)
  intro _ logged more
  have proper := isProper_of_projectOf loaded made
  have begins : ∀ progress, (logged.begins progress).Heeds host logged.judge := fun _ =>
    .going [] (more.cancelled.trans going) rfl (by simp) rfl (by simp [Scene.Within, begins])
  have later : ∀ {after property}, logged.judge.Stops after property →
      HearsFirst grounds.toLayout entry.2 entered.judge.hearings hearing after := by
    rintro after property ⟨new, heard, -⟩
    exact ⟨(more.judge ▸ hears.1).trans ⟨new, heard.symm⟩, hears.2⟩
  refine (search_reached proper (more.cancelled.trans going)).imp ?_ ?_
  · exact fun _ _ concludes => ⟨hearing, later (concludes.heeds (begins _))⟩
  · exact fun _ _ breaks => .inr (.inr ⟨hearing, later (breaks.heeds (begins _)),
      .inl ((breaks.checked ⟨rfl, proper⟩ rfl).1.isOrdinary still (by simp))⟩)

end Engine

/-- A run takes up the newest progress in stock, if the bug was reproduced on its files before. -/
theorem Run.resume_takesUp (answered : answer (entry.2.project.contents.get?) = true)
    (ran : (Engine.resume host).runOn engine = (result, after)) :
    TakesUp host grounds.toLayout answer entry.2 engine result after := by
  have ends := Engine.resume_hears still writable houses same last divides readable rooted
  cases result with
  | ok value =>
    obtain ⟨hearing, hears⟩ := (ends_ok ran).mp ends
    exact takesUp_of_hears divides answered hears fun fault failed => by cases failed
  | error failure =>
    have unheard : failure.isOrdinary = true → after.judge.hearings = engine.judge.hearings →
        engine.Unopened failure after ∨
          Engine.IsMute host grounds.toLayout entry.2 engine.driver engine.judge failure after →
        TakesUp host grounds.toLayout answer entry.2 engine (.error failure) after := by
      intro ordinary unheard cause
      refine ⟨[], unheard, by simp, fun _ => ⟨failure, rfl, cause⟩, ?_⟩
      rintro - fault failed
      cases failed
      cases ordinary
    rcases (ends_error ran).mp ends with unopened | ⟨ordinary, same, mute⟩ | ⟨hearing, hears, fault⟩
    · obtain ⟨goes, lost⟩ := (ends_error unopened).mp (Engine.enter_goes engine _ _)
      exact unheard (Failure.isOrdinary_of_untitled lost.untitled) (congrArg _ goes.judge)
        (.inl unopened)
    · exact unheard ordinary same (.inr mute)
    · refine takesUp_of_hears divides answered hears ?_
      rintro other failed
      cases failed
      exact fault.resolve_left (by simp [Failure.isOrdinary])

end

namespace Run

/-- Every snapshot of a run can be gone back to. A run from the beginning is well equipped, its driver
leaves the disk alone and answers by the bytes of the files, and it takes a snapshot, however it ends.
Then the numbers of its snapshots increase and the sizes of their projects do not; each snapshot that
was not removed since holds the files, the removed names, the bookmark and the counters of where the run
stood when it was taken; and a later run that goes on with the same grammars takes up the progress of
the newest one. -/
theorem start_resumable {outcome : Except Failure Result} (still : host.IsStill)
    (equips : Equips grounds folder root files engine)
    (ran : (Engine.start host root files).runOn engine = (outcome, after))
    (published : after.archive.written ≠ [])
    (answers : ∀ hearing ∈ after.judge.hearings, hearing.Answers grounds.toLayout answer) :
    ∃ first newest, first.Opens grounds host engine ∧
      after.archive.written.getLast? = some newest ∧
      after.archive.written.Pairwise (fun one other => one < other ∧
        (after.savedAs first other).project.size ≤ (after.savedAs first one).project.size) ∧
      (∃ ids, after.archive.ids after.world.disk = .ok ids ∧ ids ⊆ after.archive.written ∧
        newest ∈ ids ∧ ∀ id ∈ ids, ∃ point, after.archive.load after.world.disk id = .ok point ∧
          point.Restores id (after.savedAs first id)) ∧
      ∀ later result final, later.world.disk = after.world.disk →
        later.archive.directory = after.archive.directory → later.registry = engine.registry →
        later.LogsAside grounds.margin folder →
        (Engine.resume host).runOn later = (result, final) →
        TakesUp host grounds.toLayout answer (after.savedAs first newest) later result final := by
  have closes : Engine.Closes grounds folder host engine after := by
    have ends := Step.ends_const.mp (start_closes still equips)
    rwa [ran] at ends
  obtain none | ⟨first, kept, opens, stocks, saved⟩ := closes
  · exact absurd none published
  have shelf := stocks.houses.stocked.shelf
  have nonempty : kept ≠ [] := by
    rintro rfl
    exact published stocks.written
  obtain ⟨entry, last⟩ : ∃ entry, kept.getLast? = some entry :=
    ⟨_, List.getLast?_eq_some_getLast nonempty⟩
  have member := List.mem_of_getLast? last
  obtain ⟨ids, found, newest, loads⟩ := shelf.exists_loads last stocks.houses.stocked.tree
    stocks.houses.stocked.distinct stocks.houses.stocked.linkless_inside
  refine ⟨first, entry.1, opens, by simp [stocks.written, last], ?_, ⟨ids, found, ?_, newest, ?_⟩, ?_⟩
  · rw [stocks.written, List.pairwise_map]
    refine (shelf.order.and stocks.sizes).imp_of_mem fun {one other} one_mem other_mem so => ?_
    rw [saved one one_mem, saved other other_mem]
    exact so
  · intro id listed
    obtain ⟨other, other_mem, rfl, -⟩ := loads id listed
    rw [stocks.written]
    exact List.mem_map_of_mem other_mem
  · intro id listed
    obtain ⟨other, other_mem, rfl, loaded⟩ := loads id listed
    rwa [saved other other_mem]
  · intro later result final disk directory registry logs resumed
    rw [saved entry member]
    obtain ⟨divides, develops, hearing, heard, reproduces, tells⟩ := stocks.held entry member
    have answered : answer (Listing.get? entry.2.project.contents) = true := by
      rw [← divides.reading_eq tells.fits tells.shows]
      exact (answers hearing heard).1 reproduces
    have readable : entry.2.project.IsReadable host.parsers later.registry := registry ▸
      develops.isReadable (Grammar.Registry.isNamed_of_nodup equips.grammars) opens.readable
    have houses : later.Houses grounds folder kept after.archive :=
      ⟨disk ▸ stocks.houses.fits, disk ▸ stocks.houses.stocked, logs⟩
    exact resume_takesUp still equips.writable houses directory last divides readable
      (equips.suits.1 ▸ equips.read.ofText_text) answered resumed

end Run

end

/-! ### Snapshots of the small project -/

namespace Sample

def eager : Engine :=
  { engine with archive := { engine.archive with interval := .int 0 } }

theorem eager_chosen : ((Run.fresh root [.text "a"]).begun eager).chooseFiles root [.text "a"] =
    .ok ["a"] := by
  decide +kernel

theorem eager_equips : Run.Equips grounds ["work", "snaps"] root [.text "a"] eager where
  idle := rfl
  silent := rfl
  saved := rfl
  fits := grounds_fits
  records := rfl
  suits := fresh_suits eager_chosen
  writable := layout_writable
  archive := ⟨Path.ofText "snaps", .int 0, .int 10, rfl⟩
  reaches := ⟨Path.ofText "snaps", ["work", "snaps"], [], ⟨by decide, by decide⟩, by decide +kernel,
    rfl, rfl, rfl, by simp⟩
  outside more deeper fixed := by
    have above := ( isPrefixOf_iff_prefix.mp fixed).length_le
    simp [eager, engine, disk] at above
  empty name := by
    simp [eager, engine, disk, Disk.get?, Disk.isPlace]
  logs := fun _ same => by cases same
  tree := disk_isTree
  distinct := by
    unfold Disk.IsDistinct
    decide
  read := ⟨"project", Text.isWhole_of_unmarked (by decide), rfl⟩
  whole := fun name member => Text.isWhole_of_unmarked (by revert name; decide)
  grammars := by decide

def eagerOn (disk : Disk) : Engine :=
  { eager with world := { disk } }

/-- Of the small project two snapshots are taken, the second of its first line alone. It is loaded
again, and taken up by a later run. -/
theorem start_resumable_lines : ∃ result after first,
    (Engine.start picky root [.text "a"]).runOn eager = (.ok result, after) ∧
      after.archive.written = [1, 2] ∧
      Listing.get? (after.savedAs first 2).project.contents "a" = some [120, 10] ∧
      (after.savedAs first 2).project.size ≤ (after.savedAs first 1).project.size ∧
      (∃ point, after.archive.load after.world.disk 2 = .ok point ∧
        point.Restores 2 (after.savedAs first 2)) ∧
      ∀ result final, (Engine.resume picky).runOn (eagerOn after.world.disk) = (result, final) →
        Run.TakesUp picky layout keeps (after.savedAs first 2) (eagerOn after.world.disk) result final := by
  have ends : (Engine.start picky root [.text "a"]).Ends
      (fun _ after => after.archive.written = [1, 2] ∧ after.archive.directory = Path.ofText "snaps" ∧
        (∃ standing ∈ after.standing.toList,
          Listing.get? (standing.savedAs 2).project.contents "a" = some [120, 10]) ∧
        ∀ hearing ∈ after.judge.hearings,
          hearing.verdict.reproduces = keeps (layout.reading hearing.disk))
      (fun _ _ => False) eager := by
    decide +kernel
  obtain ⟨result, after, ran, written, directory, ⟨standing, stands, left⟩, answers⟩ := ends.exists_ok
  have still : picky.IsStill := ⟨fun _ _ _ _ => rfl, fun _ _ _ _ _ failed => by cases failed⟩
  obtain ⟨first, newest, -, last, sizes, ⟨ids, -, -, listed, loads⟩, takesUp⟩ :=
    Run.start_resumable still eager_equips ran (by simp [written]) fun hearing member =>
      Hearing.answers_of_eq (answers hearing member)
  rw [written] at last sizes
  cases Option.some.inj last
  refine ⟨result, after, first, ran, written, ?_, ?_, loads 2 listed, fun result final resumed => ?_⟩
  · rw [Engine.savedAs, Option.mem_toList.mp stands]
    exact left
  · exact (List.rel_of_pairwise_cons sizes (by simp)).2
  · exact takesUp (eagerOn after.world.disk) result final rfl directory.symm rfl
      (fun _ same => by cases same) resumed

def isWhole (shown : String → Option Bytes) : Bool :=
  shown "a" == some lines

/-- A driver that reproduces the bug where nothing is removed. -/
def strict : Host :=
  { host with
    launch := fun _ _ _ disk =>
      { disk, start := .running false { exit := if isWhole (layout.reading disk) then 0 else 1 } } }

/-- An engine whose archive is found through the place where a snapshot is staged. -/
def roundabout : Engine :=
  { engine with archive := winding }

/-- A run can take a snapshot from which no other goes on. The driver changes nothing and answers by
the files, nothing fails and the run ends with a fixpoint. But the way to the directory of its snapshots
is gone once the snapshot is published. -/
theorem start_roundabout_unresumable :
    (∀ count disk, (strict.launch root "driver" count disk).disk = disk) ∧
    roundabout.world.disk.get? ["work", "snaps"] = none ∧
    ∃ result after, (Engine.start strict root [.text "a"]).runOn roundabout = (.ok result, after) ∧
      result.status = .fixpoint ∧ after.archive.written = [1] ∧
      (∀ hearing ∈ after.judge.hearings, hearing.Answers layout isWhole) ∧
      ∃ fault final,
        (Engine.resume strict).runOn { roundabout with world := { disk := after.world.disk } } =
          (.error (.resume fault), final) := by
  have ends : (Engine.start strict root [.text "a"]).Ends
      (fun result after => result.status = .fixpoint ∧ after.archive.written = [1] ∧
        (∀ hearing ∈ after.judge.hearings,
          hearing.verdict.reproduces = isWhole (layout.reading hearing.disk)) ∧
        (Engine.resume strict).Ends (fun _ _ => False) (fun failure _ => failure.isOrdinary = false)
          { roundabout with world := { disk := after.world.disk } })
      (fun _ _ => False) roundabout := by
    decide +kernel
  obtain ⟨result, after, ran, fixpoint, written, answers, fails⟩ := ends.exists_ok
  refine ⟨fun _ _ => rfl, by decide +kernel, result, after, ran, fixpoint, written,
    fun hearing member => Hearing.answers_of_eq (answers hearing member), ?_⟩
  rcases resumed : (Engine.resume strict).runOn _ with ⟨failure | value, final⟩
  · cases failure with
    | resume fault => exact ⟨fault, final, rfl⟩
    | _ => exact nomatch (Step.ends_error resumed).mp fails
  · exact absurd ((Step.ends_ok resumed).mp fails) id

end Sample
end Whittle
