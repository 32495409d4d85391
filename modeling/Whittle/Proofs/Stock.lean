import Whittle.Proofs.Archive.Shelf
import Whittle.Proofs.Frame
import Whittle.Proofs.Readable

/-!
What a run has in stock. The snapshots that an archive has kept stay as they are while a log is kept
beside them and while files of the project are written (`Archive.Stocked.alter`,
`Archive.Stocked.alters`). A snapshot that an engine takes adds to its stock, if it is
taken, and each snapshot in stock is of a project on which the bug was reproduced
(`Engine.keepSnapshot_stocks`).
-/

namespace Whittle

open Disk (Place KeepsWays)

variable {before after : Disk} {place folder : Place} {kept : List (Int × Progress)}
  {archive : Archive} {grounds : Grounds} {depot : Depot} {progress : Progress}

/-! ### Files and snapshots -/

namespace Layout.Alters

variable {layout : Layout}

theorem ne_seat (fits : layout.Fits before) {entry : Entry}
    (found : before.get? place = some entry) (other : ¬ Disk.IsFile? (some entry)) :
    ∀ name ∈ layout.names, place ≠ layout.seat name := by
  rintro name member rfl
  exact other (found ▸ (fits.seated name member).file)

section

variable (alters : layout.Alters before after) (fits : layout.Fits before)

include alters fits

theorem keepsWays :
    KeepsWays before after where
  home := alters.home
  dirs place dir := (alters.elsewhere place (ne_seat fits dir id)).trans dir
  links place _ link := (alters.elsewhere place (ne_seat fits link id)).trans link

theorem isTree (fits' : layout.Fits after) (tree : before.IsTree) : after.IsTree := by
  intro place entry found
  by_cases seat : ∃ name ∈ layout.names, place = layout.seat name
  · obtain ⟨name, member, rfl⟩ := seat
    exact (fits'.seated name member).folder
  · have out : ∀ name ∈ layout.names, place ≠ layout.seat name :=
      fun name member same => seat ⟨name, member, same⟩
    rw [alters.elsewhere place out] at found
    exact (alters.keepsWays fits).dirs _ (tree place entry found)

end

end Layout.Alters

/-- Where a log can be kept beside the snapshots in a folder: there is one name for it there. -/
def Archive.Aside (folder place : Place) : Prop :=
  ∀ name more, place = folder ++ name :: more → name = logName

namespace Archive.Stocked

variable {margin : Margin} {path : Path}

/-- Keeping a log beside the snapshots leaves the stock as it is. -/
theorem alter {change : Contents → Contents} (stocked : Stocked margin folder kept archive before)
    (reaches : margin.Reaches before path place) (aside : Aside folder place)
    (altered : before.alter path change = .ok after) : Stocked margin folder kept archive after := by
  obtain ⟨file, contents, mode, puts⟩ := reaches.puts_of_alter stocked.linkless altered
  have keeps := puts.keepsWays file
  refine stocked.restock (keeps.without margin) (stocked.shelf.mono keeps fun name more other => ?_)
    stocked.counted (stocked.tree.alter altered) (stocked.distinct.alter altered)
    (Margin.tends_alter (reaches.holds.leads stocked.linkless) stocked.linkless altered).linkless
  exact puts.elsewhere _ fun same => other (aside name more same.symm)

/-- Writing files of the project leaves the stock as it is. -/
theorem alters (stocked : Stocked grounds.margin folder kept archive before)
    (fits : grounds.toLayout.Fits before) (alters : grounds.toLayout.Alters before after)
    (fits' : grounds.toLayout.Fits after) (distinct : after.IsDistinct) :
    Stocked grounds.margin folder kept archive after := by
  have keeps := alters.keepsWays fits
  refine stocked.restock (keeps.without _) (stocked.shelf.mono keeps fun name more _ => ?_)
    stocked.counted (alters.isTree fits fits' stocked.tree) distinct
    fun place target member => stocked.linkless place target (alters.links place target member)
  refine alters.elsewhere _ fun other member same => ?_
  have inside := grounds.margin.below folder (name :: more) stocked.reaches.has
  rw [same, grounds.seats other member] at inside
  cases inside

end Archive.Stocked

/-! ### Where runs keep their snapshots -/

/-- The grounds of a run, the place at which it keeps its snapshots, and the project that it began
with, as some parsers read it. -/
structure Depot where
  grounds : Grounds
  folder : Place
  parsers : Parsers
  first : Project

namespace Depot

variable {hearings later : List Hearing} {disk : Disk}

/-- Where a run stood, with a project that has come of the first, and on which the bug was
reproduced. -/
structure Holds (depot : Depot) (hearings : List Hearing) (progress : Progress) : Prop where
  divides : progress.project.Divides depot.grounds.root depot.grounds.names
  develops : depot.first.Develops depot.parsers progress.project
  heard : ∃ hearing ∈ hearings, hearing.verdict.reproduces = true ∧
    hearing.Of depot.grounds.toLayout (progress.project.contents.get?)

theorem Holds.mono (holds : depot.Holds hearings progress) (more : hearings ⊆ later) :
    depot.Holds later progress :=
  { holds with heard := holds.heard.imp fun _ heard => ⟨more heard.1, heard.2⟩ }

/-- Names with the same parts lead to the same place, so that they are the same. -/
theorem recordable (fits : depot.grounds.Fits disk)
    (nameable : Run.Nameable depot.grounds.root depot.grounds.names)
    (divides : progress.project.Divides depot.grounds.root depot.grounds.names)
    (marked : progress.bookmark.Marks depot.grounds.names) : progress.IsRecordable where
  proper := divides.proper
  inner name tracked := depot.grounds.inner name ((divides.all name).mpr (.inl tracked))
  apart name other tracked tracked' same := by
    have member := (divides.all name).mpr (.inl tracked)
    have member' := (divides.all other).mpr (.inl tracked')
    have paths : depot.grounds.root.child name = depot.grounds.root.child other := by
      rw [Margin.Holds.child_eq (depot.grounds.inner name member),
        Margin.Holds.child_eq (depot.grounds.inner other member'), same]
    have leads := (fits.layout.seated name member).leads
    rw [paths, (fits.layout.seated other member').leads] at leads
    exact depot.grounds.apart name member other member' (Except.ok.inj leads).symm
  plain := nameable.isPlain divides marked

end Depot

namespace Engine

variable {engine : Engine}

def LogsAside (margin : Margin) (folder : Place) (engine : Engine) : Prop :=
  ∀ journal, engine.journal = some journal → ∃ place,
    margin.Reaches engine.world.disk journal.eventFile place ∧ Archive.Aside folder place

/-- The disk of an engine has the snapshots of an archive, and the files of the project. -/
structure Houses (grounds : Grounds) (folder : Place) (kept : List (Int × Progress))
    (archive : Archive) (engine : Engine) : Prop where
  fits : grounds.Fits engine.world.disk
  stocked : Archive.Stocked grounds.margin folder kept archive engine.world.disk
  logs : engine.LogsAside grounds.margin folder

theorem log_keeps_houses (kind : String) (data : List (String × Value)) :
    (log kind data).Keeps (Houses grounds folder kept archive) := by
  intro engine houses
  rw [log, ends_get_bind]
  split
  · next journal same =>
    let property (world : World) : Prop := grounds.Fits world.disk ∧
      Archive.Stocked grounds.margin folder kept archive world.disk ∧
      ∃ place, grounds.margin.Reaches world.disk journal.eventFile place ∧ Archive.Aside folder place
    have appends : ∀ bytes : Bytes,
        (World.onDisk (Disk.change (·.append journal.eventFile bytes))).Keeps property := by
      rintro bytes world ⟨fits, stocked, place, reaches, aside⟩
      rw [World.onDisk, ends_within, Disk.ends_change]
      refine ⟨fun after altered => ?_, fun _ _ => ⟨fits, stocked, place, reaches, aside⟩⟩
      have tends := Margin.tends_alter (reaches.holds.leads stocked.linkless) stocked.linkless altered
      exact ⟨fits.tends tends, stocked.alter reaches aside altered, place,
        reaches.mono tends.alters.keepsWays, aside⟩
    have kept : ∀ world, property world →
        Houses grounds folder kept archive { engine with world } := by
      rintro world ⟨fits, stocked, reached⟩
      refine ⟨fits, stocked, fun other is => ?_⟩
      cases same.symm.trans is
      exact reached
    rw [onWorld, ends_within]
    exact (Journal.event_keeps_of appends (fun _ _ _ so => so) kind data engine.world
      ⟨houses.fits, houses.stocked, houses.logs journal same⟩).mono kept
  · exact houses

theorem enter_keeps_houses (phase : Phase) (data : List (String × Value)) :
    (enter phase data).Keeps (Houses grounds folder kept archive) :=
  Step.Keeps.bind (keeps_modify fun _ so => { so with }) fun _ => log_keeps_houses _ _

/-- An engine with a stock of snapshots: its archive has written them, each of where the run stood, and
the later ones are of projects that are no larger. -/
structure Stocks (depot : Depot) (kept : List (Int × Progress)) (engine : Engine) : Prop where
  houses : engine.Houses depot.grounds depot.folder kept engine.archive
  written : engine.archive.written = kept.map Prod.fst
  held : ∀ entry ∈ kept, depot.Holds engine.judge.hearings entry.2
  sizes : kept.Pairwise fun first second => second.2.project.size ≤ first.2.project.size

theorem log_keeps_stocks (kind : String) (data : List (String × Value)) :
    (log kind data).Keeps (Stocks depot kept) := by
  intro engine stocks
  have rest : (log kind data).Keeps fun after =>
      after.archive = engine.archive ∧ after.judge = engine.judge :=
    log_keeps (fun _ _ so => so) kind data
  have kept : ∀ after : Engine, after.Houses depot.grounds depot.folder kept engine.archive ∧
      after.archive = engine.archive ∧ after.judge = engine.judge → after.Stocks depot kept := by
    rintro after ⟨houses, archive, judge⟩
    exact ⟨archive ▸ houses, archive ▸ stocks.written, judge ▸ stocks.held, stocks.sizes⟩
  exact ((log_keeps_houses kind data engine stocks.houses).and (rest engine ⟨rfl, rfl⟩)).mono
    kept

theorem enter_keeps_stocks (phase : Phase) (data : List (String × Value)) :
    (enter phase data).Keeps (Stocks depot kept) :=
  Step.Keeps.bind (keeps_modify fun _ so => { so with houses := { so.houses with } })
    fun _ => log_keeps_stocks _ _

/-- An engine has the stock that it had, or one more snapshot, of where the run stands. -/
def Restocks (depot : Depot) (kept : List (Int × Progress)) (progress : Progress) (engine : Engine) :
    Prop :=
  ∃ kept', (kept' = kept ∨ ∃ id, kept' = kept ++ [(id, progress)]) ∧ engine.Stocks depot kept'

theorem log_keeps_restocks (kind : String) (data : List (String × Value)) :
    (log kind data).Keeps (Restocks depot kept progress) := by
  rintro engine ⟨kept', gains, stocks⟩
  exact (log_keeps_stocks kind data engine stocks).mono fun _ stocks => ⟨kept', gains, stocks⟩

theorem keepSnapshot_stocks (stocks : engine.Stocks depot kept) (recordable : progress.IsRecordable)
    (holds : depot.Holds engine.judge.hearings progress)
    (least : ∀ entry ∈ kept, progress.project.size ≤ entry.2.project.size) :
    (keepSnapshot progress).Leaves (Restocks depot kept progress) engine := by
  have restocks : ∀ pair : Archive × Disk,
      Archive.Offered depot.grounds.margin depot.folder kept progress pair.1 pair.2 ∧
        Archive.Stays engine.archive.directory (depot.grounds.margin.Tends engine.world.disk) pair →
      Restocks depot kept progress
        { engine with archive := pair.1, world := { engine.world with disk := pair.2 } } := by
    rintro ⟨archive, disk⟩ ⟨⟨kept', gains, written, stocked⟩, -, tends⟩
    refine ⟨kept', gains, ⟨stocks.houses.fits.tends tends, stocked, fun journal same => ?_⟩, written,
      ?_, ?_⟩
    · obtain ⟨place, reaches, aside⟩ := stocks.houses.logs journal same
      exact ⟨place, reaches.mono tends.alters.keepsWays, aside⟩
    · rcases gains with rfl | ⟨id, rfl⟩
      · exact stocks.held
      · intro entry member
        rcases List.mem_append.mp member with old | new
        · exact stocks.held entry old
        · rw [List.mem_singleton.mp new]
          exact holds
    · rcases gains with rfl | ⟨id, rfl⟩
      · exact stocks.sizes
      · refine List.pairwise_append.mpr ⟨stocks.sizes, List.pairwise_singleton _ _, ?_⟩
        intro entry old other new
        rw [List.mem_singleton.mp new]
        exact least entry old
  refine keepSnapshot_ends_of ?_ ?_ log_keeps_restocks
  · rw [Step.Leaves, onArchive, ends_within]
    exact ((Archive.offer_ends stocks.houses.stocked stocks.written recordable).and
      (Archive.offer_keeps stocks.houses.stocked.reaches.holds
        (Archive.inner_of_tracked recordable.inner) _ (engine.archive, engine.world.disk)
        ⟨rfl, .refl stocks.houses.fits.linkless⟩)).mono restocks
  · rintro _ ⟨kept', gains, so⟩
    exact ⟨kept', gains, { so with houses := { so.houses with } }⟩

end Engine
end Whittle
