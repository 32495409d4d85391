import Whittle.Proofs.Asking
import Whittle.Proofs.Installation
import Whittle.Proofs.Search.Faithful

/-!
How runs begin. A run from the beginning loads the files that it chooses and checks that
the bug reproduces on them; a run from a snapshot first writes the files of the snapshot.
Either way the search begins, if it does, with a project that is on disk and on which the
bug was reproduced (`Run.perform_ends`).
-/

namespace Whittle

open Listing

open List

variable {parsers : Parsers} {registry : Grammar.Registry} {contents : Listing Bytes}
  {project old : Project} {disk : Disk} {removed paths : List String} {outfit : Outfit}
  {point : Checkpoint} {engine : Engine} {standing : Option Standing}

/-! ### Projects made from bytes -/

namespace Project

variable {root : Path}

theorem data_of_parseFile {path : String} {data : Bytes} {file : TrackedFile}
    (parsed : parseFile parsers registry path data = .ok file) : file.data = data := by
  obtain ⟨grammar, -, parsed⟩ := bind_eq_ok_iff.mp parsed
  split at parsed <;> cases parsed
  rfl

theorem contents_of_ofContents
    (made : ofContents parsers registry root contents removed = .ok project) :
    project.contents = contents ∧ project.root = root ∧ project.removed = sortUnique removed := by
  obtain ⟨files, parsed, made⟩ := bind_eq_ok_iff.mp made
  cases made
  have told : files.map (fun file => (file.1, file.2.data)) = contents.map id := by
    refine map_of_mapM (fun entry _ file made => ?_) parsed
    obtain ⟨tracked, read, same⟩ := bind_eq_ok_iff.mp made
    cases same
    exact Prod.ext rfl (data_of_parseFile read)
  exact ⟨told.trans contents.map_id, rfl, rfl⟩

theorem isProper_of_contents (proper : project.contents.IsProper) :
    project.files.IsProper := by
  rwa [Listing.IsProper, names_contents] at proper

theorem tracks_eq (name : String) :
    project.tracks name = (project.contents.get? name).isSome := by
  rw [tracks, has, get?_contents, Option.isSome_map]

theorem read_of_readAll {pairs : List (String × Bytes)}
    (read : readAll disk root paths = .ok pairs) :
    pairs.map Prod.fst = paths ∧ ∀ pair ∈ pairs, disk.read (root.child pair.1) = .ok pair.2 := by
  constructor
  · refine (map_of_mapM (fun path _ pair found => ?_) read).trans paths.map_id
    split at found
    · cases found
      rfl
    · split at found <;> cases found
  · intro pair member
    obtain ⟨path, -, found⟩ := forall_of_mapM read pair member
    split at found
    · next data is =>
      cases found
      exact is
    · split at found <;> cases found

end Project

variable {grounds : Grounds} {host : Host}

theorem Grounds.bears_of_load (fits : grounds.toLayout.Fits disk)
    (names : ∀ name, name ∈ paths ↔ name ∈ grounds.names)
    (loaded : Project.load parsers registry disk grounds.root paths = .ok project) :
    grounds.Bears project ∧ grounds.toLayout.Shows disk (project.contents.get?) := by
  obtain ⟨pairs, read, made⟩ := bind_eq_ok_iff.mp loaded
  obtain ⟨pathsOf, all⟩ := Project.read_of_readAll read
  obtain ⟨contents, root, removed⟩ := Project.contents_of_ofContents made
  have found : ∀ name, Listing.get? project.contents name = Listing.get? pairs.reverse name := by
    intro name
    rw [contents, get?_ofList]
  refine ⟨⟨root, Project.isProper_of_contents (contents ▸ isProper_ofList pairs), ?_, ?_⟩, ?_⟩
  · intro name tracked
    rw [Project.tracks_eq, found, ← mem_names_iff, Listing.names, map_reverse,
      mem_reverse, pathsOf, names] at tracked
    exact tracked
  · intro name gone
    rw [removed, mem_sortUnique] at gone
    cases gone
  · intro name member
    have listed : name ∈ Listing.names pairs.reverse := by
      rw [Listing.names, map_reverse, mem_reverse, pathsOf, names]
      exact member
    obtain ⟨data, has⟩ := Option.isSome_iff_exists.mp (mem_names_iff.mp listed)
    have here := all _ (mem_reverse.mp (mem_of_get? has))
    rw [found, has, (fits.read_eq_ok_iff member).mp here]

/-! ### Snapshots -/

/-- A snapshot holds a project: its files, each once, and the names of those removed. -/
structure Checkpoint.Holds (point : Checkpoint) (project : Project) : Prop where
  root : Path.ofText point.record.root = project.root
  proper : point.contents.IsProper
  contents : ∀ name, point.contents.get? name = project.contents.get? name
  removed : point.record.removed = project.removed.map .text

theorem Archive.directory_of_resume {archive later : Archive}
    (resumed : archive.resume disk = .ok (point, later)) : later.directory = archive.directory := by
  unfold resume at resumed
  split at resumed
  · split at resumed <;> cases resumed
  · obtain ⟨_, -, same⟩ := bind_eq_ok_iff.mp resumed
    cases same
    rfl

theorem Engine.removedNames_map (removed : List String) :
    removedNames (removed.map .text) = removed := by
  rw [removedNames, filterMap_map]
  exact filterMap_some

theorem Engine.removedNames_perm {removed : List Value} {names : List String}
    (same : removed.Perm (names.map .text)) : (removedNames removed).Perm names :=
  removedNames_map names ▸ same.filterMap _

theorem Engine.of_projectOf {path : Path}
    (made : projectOf host registry point path = .ok project) :
    Project.ofContents host.parsers registry path point.contents (removedNames point.record.removed) =
      .ok project := by
  unfold projectOf at made
  split at made
  · cases made
  · exact made

theorem Engine.bears_of_projectOf (bears : grounds.Bears old) (holds : point.Holds old)
    (made : projectOf host registry point grounds.root = .ok project) :
    grounds.Bears project ∧ project.contents = point.contents := by
  obtain ⟨contents, root, removed⟩ := Project.contents_of_ofContents (of_projectOf made)
  refine ⟨⟨root, Project.isProper_of_contents (contents ▸ holds.proper), fun name tracked => ?_,
    fun name gone => ?_⟩, contents⟩
  · rw [Project.tracks_eq, contents, holds.contents, ← Project.tracks_eq] at tracked
    exact bears.tracked name tracked
  · rw [removed, holds.removed, removedNames_map, mem_sortUnique] at gone
    rw [contents, holds.contents]
    exact bears.removed name gone

/-- The files of a snapshot can be written where the grounds have them: the layout fits the disk once
all directories are there, and the grounds do once the files are. -/
structure Grounds.Receives (grounds : Grounds) (contents : Listing Bytes) (disk : Disk) : Prop where
  whole : ∃ whole, whole.IsTree ∧ disk.Grows whole ∧ grounds.toLayout.Fits whole
  fits : ∀ stored, (Worktree.putFiles grounds.root (Worktree.ordered (contents.map fun entry =>
    (entry.1, some entry.2)))).runOn disk = (.ok (), stored) → grounds.Fits stored

theorem Grounds.Receives.stores (receives : grounds.Receives contents disk)
    (members : ∀ name ∈ contents.names, name ∈ grounds.names) :
    (Worktree.putFiles grounds.root ((sortNames contents.names).map fun name =>
      (name, contents.get? name))).Ends
      (fun _ stored => grounds.Fits stored ∧ ∀ name ∈ contents.names,
        grounds.toLayout.bytes stored name = contents.get? name) (fun _ _ => True) disk := by
  refine (Step.ends_self _ disk).imp (fun _ stored ran => ?_) fun _ _ _ => trivial
  refine ⟨receives.fits stored (Worktree.ordered_contents contents ▸ ran), fun name is => ?_⟩
  obtain ⟨whole, tree, grows, fits⟩ := receives.whole
  obtain ⟨larger, grows, writes⟩ := Layout.putFiles_grows grows tree fits (fun name is =>
    have is := mem_sortNames.mp is
    ⟨members name is, mem_names_iff.mp is⟩) ran
  have member := members name is
  rw [← writes.bytes name member (mem_sortNames.mpr is), Layout.bytes, Layout.bytes,
    grows.get?_eq (writes.fits.seated name member).file]

/-! ### Before the search -/

namespace Engine

variable {after : Engine} {shown : String → Option Bytes}

/-- An engine that keeps the records of the grounds, and has not searched yet. -/
structure Idles (grounds : Grounds) (outfit : Outfit) (engine : Engine) : Prop where
  records : engine.records = grounds.records
  driver : engine.driver = outfit.driver
  passes : engine.passes = outfit.passes
  unsearched : engine.standing = none
  untold : engine.trail.filter Phase.isSettled = []

/-- An engine that can work on the grounds, and has not searched yet. -/
structure Awaits (grounds : Grounds) (outfit : Outfit) (engine : Engine) : Prop
    extends Poised grounds outfit engine where
  unsearched : engine.standing = none
  untold : engine.trail.filter Phase.isSettled = []

/-- An engine that has yet to search, on a project on which the bug was reproduced. -/
structure Begins (grounds : Grounds) (outfit : Outfit) (project : Project) (engine : Engine) : Prop
    extends Upholds grounds outfit project engine where
  unsearched : engine.standing = none
  untold : engine.trail.filter Phase.isSettled = []

theorem Idles.awaits (idles : engine.Idles grounds outfit) (fits : grounds.Fits engine.world.disk) :
    engine.Awaits grounds outfit :=
  ⟨⟨fits, idles.records, idles.driver, idles.passes⟩, idles.unsearched, idles.untold⟩

theorem Awaits.notes (awaits : engine.Awaits grounds outfit)
    (notes : Notes grounds.margin engine after) : after.Awaits grounds outfit where
  toPoised := awaits.toPoised.notes notes
  unsearched := notes.standing.trans awaits.unsearched
  untold := notes.trail ▸ awaits.untold

theorem Awaits.into (awaits : engine.Awaits grounds outfit) {phase : Phase}
    (early : phase.isSettled = false) : (engine.into phase).Awaits grounds outfit where
  toPoised := { awaits.toPoised with }
  unsearched := awaits.unsearched
  untold := by rw [Engine.into, filter_cons_of_neg (by simp [early]), awaits.untold]

theorem Begins.notes (begins : engine.Begins grounds outfit project)
    (notes : Notes grounds.margin engine after) : after.Begins grounds outfit project where
  toUpholds := begins.toUpholds.notes notes
  unsearched := notes.standing.trans begins.unsearched
  untold := notes.trail ▸ begins.untold

theorem fail_keeps_standing : ∀ failure title,
    (fail failure title).Keeps (·.standing = standing) :=
  fail_keeps (enter_keeps fun _ _ _ so => so)

/-- The end of a check before the search: the driver is run on the project, the bug has to be
reproduced, and a wish to stop ends the run. -/
def vet {α : Type} (host : Host) (root : Path) (project : Project) (answer : α)
    (fault : Verdict → Failure) : Step Engine (Except Result α) := do
  let verdict ← judgeDisk host root
  let now := (← get).world.clock
  if (← get).world.cancelled then
    let progress : Progress := { project, counters := { startedAt := now } }
    return .error (← finish progress .interrupted project.size)
  if !verdict.reproduces then throw (fault verdict)
  return .ok answer

theorem ends_vet {α : Type} {root : Path} {project : Project} {answer : α} {fault : Verdict → Failure}
    {done : Except Result α → Engine → Prop} {failed : Failure → Engine → Prop}
    (so : ∀ left, engine.judge.run host root engine.driver true engine.world = left →
      Judge.Ran host root engine.driver engine.judge engine.world left →
      Step.Outcome (fun verdict judged =>
        (judged.world.cancelled = true → ∀ progress : Progress, progress.project = project →
          progress.counters = { startedAt := judged.world.clock } →
          (finish progress .interrupted project.size).Ends (fun result => done (.error result)) failed
            judged) ∧
        (judged.world.cancelled = false → verdict.reproduces = false → failed (fault verdict) judged) ∧
        (judged.world.cancelled = false → verdict.reproduces = true → done (.ok answer) judged))
        failed (left.1, { engine with judge := left.2.1, world := left.2.2 })) :
    (vet host root project answer fault).Ends done failed engine := by
  rw [vet, ends_bind]
  refine (ends_judgeDisk so).imp (fun verdict judged so => ?_) fun _ _ => id
  obtain ⟨stops, differs, passes⟩ := so
  rw [ends_get_bind, ends_get_bind]
  split
  · next stop => exact (ends_bind _ _).mpr (stops stop _ rfl rfl)
  · next going =>
    have going := Bool.eq_false_iff.mpr going
    cases reproduces : verdict.reproduces with
    | false => exact differs going reproduces
    | true => exact passes going reproduces

/-- What comes of a check before the search: the search can begin, on the project that the answer
tells, or the run is interrupted. -/
def Checked {α : Type} (grounds : Grounds) (outfit : Outfit) (project : α → Project)
    (outcome : Except Result α) (engine : Engine) : Prop :=
  match outcome with
  | .ok answer => engine.Begins grounds outfit (project answer)
  | .error result => result.status = .interrupted ∧ engine.standing = none

theorem installSnapshot_ends (idles : engine.Idles grounds outfit)
    (receives : grounds.Receives point.contents engine.world.disk) (bears : grounds.Bears old)
    (holds : point.Holds old)
    (covers : ∀ name ∈ grounds.names, old.tracks name = true ∨ name ∈ old.removed) :
    (installSnapshot point grounds.root).Ends
      (fun _ after => after.Awaits grounds outfit ∧
        grounds.toLayout.Shows after.world.disk (point.contents.get?))
      (fun _ after => after.standing = none) engine := by
  have listed : ∀ name, name ∈ point.contents.names ↔ old.tracks name = true := by
    intro name
    rw [mem_names_iff, holds.contents, Project.tracks_eq]
  have members : ∀ name, name ∈ grounds.names ↔
      name ∈ point.contents.names ∨ name ∈ old.removed := fun name =>
    ⟨fun member => (covers name member).imp_left (listed name).mpr, fun known =>
      known.elim (fun is => bears.tracked name ((listed name).mp is)) fun is =>
        (bears.removed name is).1⟩
  have gone : ∀ name ∈ old.removed, point.contents.get? name = none := fun name is =>
    (holds.contents name).trans (bears.removed name is).2
  rw [installSnapshot, ends_bind, ends_attempt, onWorld, ends_within,
    ends_within, holds.removed]
  refine (Worktree.install_ends (receives.stores fun name is => (members name).mpr (.inl is))
    (fun _ so => ⟨so.1.layout, so.2⟩) members gone).imp ?_ ?_
  · rintro _ site ⟨stored, ⟨fits, -⟩, alters, fits', shows⟩
    exact ⟨Idles.awaits { idles with } (fits.alters fits' alters), shows⟩
  · intro failure site _
    dsimp only
    split <;> exact idles.unsearched

section

variable (undisturbed : grounds.toLayout.Undisturbed grounds.drift host outfit.driver {})

include undisturbed

section

variable (awaits : engine.Awaits grounds outfit)

include awaits

/-- Running the driver leaves the files of the grounds as they are. Then the run is interrupted, or
fails, or the search can begin. -/
theorem vet_ends {α : Type} (tell : α → Project) (answer : α) {fault : Verdict → Failure}
    (bears : grounds.Bears (tell answer))
    (shows : grounds.toLayout.Shows engine.world.disk ((tell answer).contents.get?)) :
    (vet host grounds.root (tell answer) answer fault).Ends
      (Checked grounds outfit tell) (fun _ after => after.standing = none) engine := by
  have spares := undisturbed.launch (engine.world.launches + 1) _ awaits.fits.layout
  rw [← awaits.driver] at spares
  refine ends_vet fun left _ ran => ?_
  rw [← ran.disk] at spares
  have judged : Awaits grounds outfit { engine with judge := left.2.1, world := left.2.2 } :=
    ⟨⟨spares.drifts awaits.fits, awaits.records, awaits.driver, awaits.passes⟩, awaits.unsearched,
      awaits.untold⟩
  cases ran with
  | unheard => exact awaits.unsearched
  | heard =>
    refine ⟨fun _ progress same _ => ?_, fun _ _ => awaits.unsearched, fun _ reproduces =>
      ⟨⟨judged.toPoised, bears, spares.shows shows, _, find?_cons_of_pos reproduces, awaits.fits.layout,
        shows⟩, awaits.unsearched, awaits.untold⟩⟩
    refine (finish_ends judged.within (same ▸ bears.inner) .interrupted _).imp ?_ ?_
    · rintro result after ⟨notes, status, -⟩
      exact ⟨status, notes.standing.trans awaits.unsearched⟩
    · rintro _ after (notes | notes) <;> exact notes.standing.trans awaits.unsearched

theorem verifyBaseline_ends {files : List Value}
    (chosen : ∀ paths, engine.chooseFiles grounds.root files = .ok paths →
      ∀ name, name ∈ paths ↔ name ∈ grounds.names) :
    (verifyBaseline host grounds.root files).Ends (Checked grounds outfit id)
      (fun _ after => after.standing = none) engine := by
  rw [verifyBaseline, ends_get_bind]
  rw [ends_bind, ends_lift]
  refine ⟨fun paths choice => ?_, fun _ _ => awaits.unsearched⟩
  rw [ends_bind, ends_lift]
  refine ⟨fun project loaded => ?_, fun _ _ => awaits.unsearched⟩
  obtain ⟨bears, shows⟩ := Grounds.bears_of_load awaits.fits.layout (chosen paths choice) loaded
  refine (log_ends awaits.within _ _).bind ?_ fun _ _ notes => notes.standing.trans awaits.unsearched
  intro _ logged notes
  have awaits := awaits.notes notes
  have shows := Grounds.shows_of_tends notes.tends shows
  refine (enter_ends awaits.within _ _).bind ?_ fun _ _ notes =>
    notes.standing.trans awaits.unsearched
  intro _ entered notes
  have shows := Grounds.shows_of_tends notes.tends shows
  exact vet_ends undisturbed ((awaits.into rfl).notes notes) id project bears shows

end

theorem verifySnapshot_ends (idles : engine.Idles grounds outfit)
    (receives : ∀ point archive, engine.archive.resume engine.world.disk = .ok (point, archive) →
      grounds.Receives point.contents engine.world.disk)
    (snapshot : ∀ point archive, engine.archive.resume engine.world.disk = .ok (point, archive) →
      ∃ old, grounds.Bears old ∧ point.Holds old ∧
        ∀ name ∈ grounds.names, old.tracks name = true ∨ name ∈ old.removed) :
    (verifySnapshot host).Ends (Checked grounds outfit Prod.snd)
      (fun _ after => after.standing = none) engine := by
  rw [verifySnapshot, ends_bind, loadSnapshot, ends_get_bind]
  rw [ends_bind, ends_lift]
  refine ⟨?_, fun _ _ => idles.unsearched⟩
  rintro ⟨point, archive⟩ resumed
  obtain ⟨old, bears, holds, covers⟩ := snapshot point archive resumed
  have idles : Idles grounds outfit { engine with archive } :=
    { idles with
      records := by
        rw [← idles.records, records, records, Archive.directory_of_resume resumed] }
  have root : Path.ofText point.record.root = grounds.root := holds.root.trans bears.root
  rw [ends_bind, ends_set, ends_pure]
  rw [root]
  refine (installSnapshot_ends idles (receives point archive resumed) bears holds covers).bind ?_
    fun _ _ => id
  rintro _ installed ⟨awaits, shows⟩
  rw [ends_get_bind, ends_bind, ends_lift]
  refine ⟨fun project made => ?_, fun _ _ => awaits.unsearched⟩
  obtain ⟨bears, contents⟩ := bears_of_projectOf bears holds made
  rw [← contents] at shows
  exact vet_ends undisturbed awaits Prod.snd (point, project) bears shows

end

end Engine

/-! ### Runs -/

/-- How a run begins: with files below a root, or with the newest snapshot. -/
inductive Run where
  | fresh (root : Path) (files : List Value)
  | resumed

namespace Run

def perform (host : Host) : Run → Step Engine Result
  | .fresh root files => Engine.start host root files
  | .resumed => Engine.resume host

def begun (engine : Engine) : Run → Engine
  | .fresh root _ =>
    ((Engine.enter .initializing [("root", .text root.text)]).runOn engine).2
  | .resumed =>
    let directory := engine.archive.directory.text
    ((Engine.enter .resuming [("directory", .text directory)]).runOn engine).2

/-- The files that a run works on are those of the grounds: the ones that it chooses, or those of a
project on the grounds that its snapshot holds. -/
def Suits (grounds : Grounds) (engine : Engine) : Run → Prop
  | .fresh root files => root = grounds.root ∧
    ∀ paths, ((fresh root files).begun engine).chooseFiles root files = .ok paths →
      ∀ name, name ∈ paths ↔ name ∈ grounds.names
  | .resumed =>
    ∀ point archive, (resumed.begun engine).archive.resume
        (resumed.begun engine).world.disk = .ok (point, archive) →
      ∃ project, grounds.Bears project ∧ point.Holds project ∧
        ∀ name ∈ grounds.names, project.tracks name = true ∨ name ∈ project.removed

/-- The files of a run have their places on the disk: from the beginning on, or once those of its
snapshot are written. -/
def Fits (grounds : Grounds) (engine : Engine) : Run → Prop
  | .fresh _ _ => grounds.Fits engine.world.disk
  | .resumed =>
    ∀ point archive, (resumed.begun engine).archive.resume
        (resumed.begun engine).world.disk = .ok (point, archive) →
      grounds.Receives point.contents (resumed.begun engine).world.disk

/-- A run works on files that have their places on the grounds, apart from the records that it keeps,
and the driver leaves them alone. -/
structure Apart (run : Run) (grounds : Grounds) (host : Host) (engine : Engine) : Prop where
  idle : engine.standing = none
  silent : engine.trail = []
  fits : run.Fits grounds engine
  records : engine.records = grounds.records
  suits : run.Suits grounds engine
  undisturbed : grounds.toLayout.Undisturbed grounds.drift host engine.driver {}
  writable : grounds.toLayout.Writable

variable {done : Result → Engine → Prop} {left : Engine → Prop}

/-- A run comes to the search, which then begins with a project on which the bug was reproduced, or
ends before it. -/
theorem perform_ends {run : Run} (apart : run.Apart grounds host engine)
    (interrupted : ∀ result after, result.status = .interrupted → after.standing = none →
      done result after)
    (unsearched : ∀ after, after.standing = none → left after)
    (searched : ∀ progress begun, begun.Begins grounds engine.outfit progress.project →
      (Engine.search host progress).Ends done (fun _ => left) begun) :
    (run.perform host).Ends done (fun _ => left) engine := by
  have idles : engine.Idles grounds engine.outfit :=
    ⟨apart.records, rfl, rfl, apart.idle, by rw [apart.silent]; rfl⟩
  cases run with
  | fresh root files =>
    obtain ⟨rfl, chosen⟩ := apart.suits
    have awaits := idles.awaits apart.fits
    rw [perform, Engine.start]
    refine (Engine.enter_ends awaits.within _ _).and_eq.bind ?_ ?_
    · rintro _ _ ⟨notes, rfl⟩
      refine (Engine.guarded_ends (Engine.verifyBaseline_ends apart.undisturbed
        ((awaits.into rfl).notes notes) chosen) Engine.fail_keeps_standing).bind ?_
          fun _ => unsearched
      rintro (result | project) after checked
      · exact interrupted result after checked.1 checked.2
      · change after.Begins grounds engine.outfit project at checked
        rw [ends_get_bind]
        refine (Engine.keepSnapshot_ends checked.within checked.bears.inner).bind
          (fun _ after notes => searched _ after (checked.notes notes)) fun _ after notes => ?_
        exact unsearched after (notes.standing.trans checked.unsearched)
    · exact fun _ after failed => unsearched after (failed.1.standing.trans awaits.unsearched)
  | resumed =>
    rw [perform, Engine.resume, ends_get_bind]
    have entered : ∀ data, (Engine.enter .resuming data).Leaves (·.Idles grounds engine.outfit)
        engine := fun data =>
      Engine.log_keeps (fun _ _ so => { so with }) _ _ (engine.into .resuming) { idles with }
    refine (entered _).and_eq.bind ?_ ?_
    · rintro _ _ ⟨idles, rfl⟩
      refine (Engine.guarded_ends (Engine.verifySnapshot_ends apart.undisturbed idles apart.fits
        apart.suits) Engine.fail_keeps_standing).bind ?_ fun _ => unsearched
      rintro (result | ⟨point, project⟩) after checked
      · exact interrupted result after checked.1 checked.2
      · change after.Begins grounds engine.outfit project at checked
        rw [ends_get_bind, ends_bind, ends_lift]
        refine ⟨fun counters _ => ?_, fun _ _ => unsearched after checked.unsearched⟩
        refine (Engine.log_ends checked.within _ _).bind
          (fun _ after notes => searched _ after (checked.notes notes)) fun _ after notes => ?_
        exact unsearched after (notes.standing.trans checked.unsearched)
    · exact fun _ after failed => unsearched after failed.1.unsearched

end Run
end Whittle
