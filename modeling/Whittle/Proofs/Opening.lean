import Whittle.Proofs.Asking
import Whittle.Proofs.Search.Course
import Whittle.Proofs.Search.Reached

/-!
How a run comes to its search, wherever it is held. Nothing is asked of the disk or of the driver
here. A run goes through its first phases and hears the driver once (`Run.opening`); then it is
interrupted (`Run.Ceases`), or it stops for a failure (`Engine.Stalls`), or it searches from the project
that it has loaded or taken from a snapshot (`Run.Reaches`). What holds of all these ways holds of the
run (`Run.perform_reached`).
-/

namespace Whittle

open Failure

open List

variable {phases more : List Phase} {before after engine : Engine} {host : Host} {failure : Failure}
  {α : Type} {path : Path} {files : List Value} {run : Run} {progress : Progress}
  {done : Result → Engine → Prop} {failed : Failure → Engine → Prop}

namespace Engine

/-- An engine has gone through some more phases, the latest first, with the same driver and passes,
and no search has ended meanwhile. -/
structure Turns (phases : List Phase) (before after : Engine) : Prop where
  trail : after.trail = phases ++ before.trail
  driver : after.driver = before.driver
  passes : after.passes = before.passes
  standing : after.standing = before.standing

namespace Turns

variable {first second third : Engine}

theorem trans (one : Turns phases first second) (other : Turns more second third) :
    Turns (more ++ phases) first third where
  trail := by rw [other.trail, one.trail, append_assoc]
  driver := other.driver.trans one.driver
  passes := other.passes.trans one.passes
  standing := other.standing.trans one.standing

end Turns

theorem Goes.turns (goes : Goes phases before after) : Turns phases before after :=
  ⟨goes.trail, goes.driver, goes.passes, goes.standing⟩

/-! ### Checks before the search -/

/-- What a check of a project before the search says after some phases: its answer, as the bug was
reproduced, or that the run was interrupted. -/
inductive Vetted {α : Type} (before : Engine) (phases : List Phase) (project : Project) (answer : α) :
    Except Result α → Engine → Prop where
  | passed {hearing : Hearing} {after : Engine} : Turns phases before after →
    after.judge = before.judge.hears hearing → hearing.verdict.reproduces = true →
    hearing.cancelled = false → after.world.cancelled = false →
    Vetted before phases project answer (.ok answer) after
  | interrupted {hearing : Hearing} {result : Result} {after : Engine} :
    after.standing = before.standing → after.judge = before.judge.hears hearing →
    hearing.cancelled = true → result.status = .interrupted → result.project = project →
    (∃ now, result.counters = { startedAt := now }) → result.initialSize = project.size →
    Vetted before phases project answer (.error result) after

/-- Whom a failure before the search leaves unheard: the driver was not run, or not to a verdict, or
it was heard. If the run was to stop then, that only could not be told of the project that was taken
up, or its snapshot not be kept. -/
def Unsettled (taken : Project → Prop) (before : Engine) (failure : Failure) (after : Engine) : Prop :=
  after.judge = before.judge ∨ after.judge = before.judge.called ∨
    ∃ hearing, after.judge = before.judge.hears hearing ∧
      (hearing.cancelled = true → ∃ progress, taken progress.project ∧
        (after.Unlogged progress.Overlong failure ∨ after.Unkept progress failure))

/-- The failures of a reduction before its search. -/
def early : List String :=
  ["LoadError", "BaselineVerificationError", "ResumeError"]

/-- A run has failed before its search. -/
structure Stalls (host : Host) (taken : Project → Prop) (before : Engine) (failure : Failure)
    (after : Engine) : Prop where
  standing : after.standing = before.standing
  unsettled : Unsettled taken before failure after
  admits : host.Admits early failure

section Checks

variable {taken : Project → Prop}

theorem Stalls.of_goes (goes : engine.Goes more after) (among : failure.IsAmong early) :
    Stalls host taken engine failure after :=
  ⟨goes.standing, .inl goes.judge, .inr among⟩

/-- The driver is heard, or fails. Then the run is interrupted, or fails, or the bug was reproduced. -/
theorem vet_vets {fault : Verdict → Failure} (root : Path) (project : Project) (answer : α)
    (goes : Goes phases before engine) (takes : taken project)
    (among : ∀ verdict, (fault verdict).IsAmong early) :
    (vet host root project answer fault).Ends (Vetted before phases project answer)
      (Stalls host taken before) engine := by
  refine ends_vet fun left _ ran => ?_
  have turns : Turns phases before { engine with judge := left.2.1, world := left.2.2 } :=
    ⟨goes.trail, goes.driver, goes.passes, goes.standing⟩
  cases ran with
  | unheard _ _ starts =>
    exact ⟨goes.standing, .inr (.inl (congrArg Judge.called goes.judge)), .of_start starts⟩
  | heard =>
    have heard hearing : engine.judge.hears hearing = before.judge.hears hearing := by rw [goes.judge]
    refine ⟨fun stop progress same counted => ?_, fun going _ => ?_, fun going reproduces =>
      .passed turns (heard _) reproduces going going⟩
    · refine (finish_goes _ progress _ _).imp ?_ ?_
      · rintro result after ⟨more, status, project, counters, size⟩
        exact .interrupted (more.standing.trans goes.standing) (more.judge.trans (heard _)) stop status
          (project.trans same) ⟨_, counters.trans counted⟩ size
      · rintro failure after (⟨more, lost⟩ | ⟨more, lost⟩)
        all_goals
          have told := more.judge.trans (heard _)
          refine ⟨more.standing.trans goes.standing,
            .inr (.inr ⟨_, told, fun _ => ⟨progress, same ▸ takes, ?_⟩⟩), .of_none lost.untitled⟩
        · exact .inr lost
        · exact .inl lost
    · refine ⟨goes.standing, .inr (.inr ⟨_, heard _, ?_⟩), .inr (among _)⟩
      exact fun stop => absurd (going.symm.trans stop) (by simp)

theorem verifyBaseline_vets (root : Path) (files : List Value) (engine : Engine)
    (takes : ∀ paths project, engine.chooseFiles root files = .ok paths →
      Project.load host.parsers engine.registry engine.world.disk root paths = .ok project →
      taken project) :
    (verifyBaseline host root files).Ends
      (fun outcome after => ∃ paths project, engine.chooseFiles root files = .ok paths ∧
        Project.load host.parsers engine.registry engine.world.disk root paths = .ok project ∧
        Vetted engine [.verifyingBaseline] project project outcome after)
      (Stalls host taken engine) engine := by
  have unread : ∀ failure, failure.IsAmong ["LoadError"] →
      Stalls host taken engine failure engine := fun failure among =>
    .of_goes (.refl engine) (among.mono (by simp [early]))
  rw [verifyBaseline, ends_get_bind, ends_bind, ends_lift]
  refine ⟨fun paths chosen => ?_, fun failure failed =>
    unread failure (confined_chooseFiles engine root files failure failed)⟩
  rw [ends_bind, ends_lift]
  refine ⟨fun project loaded => ?_, fun failure failed =>
    unread failure (Project.confined_load _ _ _ _ _ failure failed)⟩
  refine (log_goes engine _ _).bind ?_ fun failure after failed =>
    .of_goes failed.1 (isAmong_of_none failed.2.untitled)
  intro _ logged goes
  refine (enter_goes logged _ _).bind ?_ fun failure after failed =>
    .of_goes (goes.trans failed.1) (isAmong_of_none failed.2.untitled)
  intro _ entered more
  exact (vet_vets root project project (goes.trans more) (takes paths project chosen loaded) fun _ =>
    isAmong_of_some rfl (by simp [early])).imp
      (fun _ _ vetted => ⟨paths, project, chosen, loaded, vetted⟩) fun _ _ => id

/-- Installing a snapshot changes what is on disk, or fails for the run that was to go on. -/
theorem installSnapshot_goes (point : Checkpoint) (root : Path) (engine : Engine) :
    (installSnapshot point root).Ends (fun _ => Goes [] engine)
      (fun failure after => Goes [] engine after ∧ failure.IsAmong ["ResumeError"]) engine := by
  rw [installSnapshot, ends_bind, ends_attempt, onWorld, ends_within,
    ends_within]
  refine (Worktree.confined_install Disk.isLasting_true _ _ _ trivial).imp ?_ ?_
  · intro _ site _
    exact ⟨rfl, rfl, rfl, rfl, rfl, rfl, rfl⟩
  · rintro failure site ⟨among, -⟩
    have goes : Goes [] engine { engine with world := { engine.world with disk := site.2 } } :=
      ⟨rfl, rfl, rfl, rfl, rfl, rfl, rfl⟩
    dsimp only
    split
    · exact ⟨goes, isAmong_of_some rfl mem_cons_self⟩
    · next other =>
      refine ⟨goes, isAmong_of_none (among.title?_of_ne fun is => ?_)⟩
      obtain ⟨fault, rfl⟩ := title?_eq_write_iff.mp is
      exact other fault rfl

theorem confined_projectOf (registry : Grammar.Registry) (point : Checkpoint) (root : Path) :
    Confined ["ResumeError"] (projectOf host registry point root) := by
  have made := Project.confined_ofContents host.parsers registry root point.contents
    (removedNames point.record.removed)
  unfold projectOf
  split
  · exact confined_error_iff.mpr (isAmong_of_some rfl mem_cons_self)
  · next other =>
    intro failure failed
    refine isAmong_of_none ((made failure failed).title?_of_ne fun is => ?_)
    obtain ⟨fault, rfl⟩ := title?_eq_load_iff.mp is
    exact other fault failed

theorem verifySnapshot_vets (engine : Engine)
    (takes : ∀ point archive registry project,
      engine.archive.resume engine.world.disk = .ok (point, archive) →
      projectOf host registry point (Path.ofText point.record.root) = .ok project → taken project) :
    (verifySnapshot host).Ends
      (fun outcome after => ∃ point archive registry project,
        engine.archive.resume engine.world.disk = .ok (point, archive) ∧
        projectOf host registry point (Path.ofText point.record.root) = .ok project ∧
        Vetted engine [] project (point, project) outcome after)
      (Stalls host taken engine) engine := by
  rw [verifySnapshot, ends_bind, loadSnapshot, ends_get_bind, ends_bind,
    ends_lift]
  refine ⟨?_, fun failure failed => .of_goes (.refl engine)
    ((Archive.confined_resume engine.archive engine.world.disk failure failed).mono (by simp [early]))⟩
  rintro ⟨point, archive⟩ resumed
  rw [ends_bind, ends_set, ends_pure]
  have goes : Goes [] engine { engine with archive } := ⟨rfl, rfl, rfl, rfl, rfl, rfl, rfl⟩
  refine (installSnapshot_goes point _ _).bind ?_ fun failure after failed =>
    .of_goes (goes.trans failed.1) (failed.2.mono (by simp [early]))
  intro _ installed more
  have goes := goes.trans more
  rw [ends_get_bind, ends_bind, ends_lift]
  refine ⟨fun project made => ?_, fun failure failed => .of_goes goes
    ((confined_projectOf _ _ _ failure failed).mono (by simp [early]))⟩
  exact (vet_vets _ project (point, project) goes (takes _ _ _ _ resumed made) fun _ =>
    isAmong_of_some rfl (by simp [early])).imp
      (fun _ _ vetted => ⟨point, archive, _, project, resumed, made, vetted⟩) fun _ _ => id

end Checks
end Engine

/-! ### Snapshots -/

namespace Archive

variable {archive later : Archive} {disk : Disk} {point : Checkpoint} {id : Int}

theorem exists_load_of_loadFirst {problems : List String} {ids : List Int}
    (found : archive.loadFirst disk problems ids = .ok point) :
    ∃ id, archive.load disk id = .ok point := by
  induction ids generalizing problems with
  | nil => cases found
  | cons id rest ih =>
    rw [loadFirst] at found
    split at found
    · next loaded =>
      cases found
      exact ⟨id, loaded⟩
    · exact ih found
    · cases found

theorem exists_load_of_resume (resumed : archive.resume disk = .ok (point, later)) :
    ∃ id, archive.load disk id = .ok point := by
  unfold resume at resumed
  split at resumed
  · split at resumed <;> cases resumed
  · obtain ⟨_, found, same⟩ := bind_eq_ok_iff.mp resumed
    cases same
    exact exists_load_of_loadFirst found

theorem names_of_readCopy {files : List (String × String)}
    {contents : List (String × Bytes)} (read : files.mapM (readCopy disk path) = .ok contents) :
    Listing.names contents = Listing.names files := by
  refine map_of_mapM (fun file _ copy found => ?_) read
  unfold readCopy at found
  split at found
  · split at found <;> cases found
  · split at found
    · cases found
      rfl
    · cases found

theorem of_load (loaded : archive.load disk id = .ok point) :
    readRecord disk point.path = .ok point.record ∧
      Listing.names point.contents = Listing.names point.record.files := by
  unfold load at loaded
  dsimp only at loaded
  split at loaded
  · split at loaded <;> cases loaded
  · next record read =>
    obtain ⟨contents, copies, same⟩ := bind_eq_ok_iff.mp loaded
    cases same
    exact ⟨read, names_of_readCopy copies⟩

theorem isProper_of_readRecord {record : Record}
    (read : readRecord disk path = .ok record) : record.files.IsProper := by
  obtain ⟨_, -, read⟩ := bind_eq_ok_iff.mp read
  obtain ⟨_, -, read⟩ := bind_eq_ok_iff.mp read
  obtain ⟨value, -, read⟩ := bind_eq_ok_iff.mp read
  have valued := mapError_eq_ok_iff.mp read
  repeat obtain ⟨_, -, valued⟩ := bind_eq_ok_iff.mp valued
  cases valued
  exact Listing.isProper_ofList _

end Archive

/-- The project of a snapshot that was read lists each file once. -/
theorem Engine.isProper_of_projectOf {archive later : Archive} {disk : Disk} {point : Checkpoint}
    {registry : Grammar.Registry} {project : Project}
    (loaded : archive.resume disk = .ok (point, later))
    (made : projectOf host registry point path = .ok project) : project.files.IsProper := by
  obtain ⟨id, found⟩ := Archive.exists_load_of_resume loaded
  obtain ⟨read, names⟩ := Archive.of_load found
  refine Project.isProper_of_contents ?_
  rw [(Project.contents_of_ofContents (of_projectOf made)).1, Listing.IsProper, names]
  exact Archive.isProper_of_readRecord read

/-! ### Runs -/

namespace Run

def opening : Run → List Phase
  | .fresh _ _ => [.verifyingBaseline, .initializing]
  | .resumed => [.resuming]

section Loaded

variable {root : Path} {initial : List String} {first : Project}

theorem of_chooseFiles (chosen : engine.chooseFiles root files = .ok initial) :
    engine.world.disk.isDir root = .ok true ∧ initial ≠ [] := by
  have some : ∀ {listed : Except Failure (List String)} {fault : Failure}, (do
      let paths ← listed
      if paths.isEmpty then throw fault
      return paths) = .ok initial → initial ≠ [] := by
    intro listed fault chosen
    obtain ⟨paths, -, chosen⟩ := bind_eq_ok_iff.mp chosen
    split at chosen
    · cases chosen
    · next some =>
      cases chosen
      simpa using some
  obtain ⟨dir, asked, chosen⟩ := bind_eq_ok_iff.mp chosen
  dsimp only at chosen
  split at chosen
  · cases chosen
  · next there =>
    have dir : dir = true := by simpa using there
    refine ⟨dir ▸ mapError_eq_ok_iff.mp asked, ?_⟩
    split at chosen <;> exact some chosen

theorem divides_of_load (chosen : engine.chooseFiles root files = .ok initial)
    (loaded : Project.load host.parsers engine.registry engine.world.disk root initial = .ok first) :
    first.Divides root initial ∧ first.removed = [] := by
  obtain ⟨pairs, read, made⟩ := bind_eq_ok_iff.mp loaded
  obtain ⟨pathsOf, -⟩ := Project.read_of_readAll read
  obtain ⟨contents, base, removed⟩ := Project.contents_of_ofContents made
  have none : first.removed = [] := removed
  have tracked : ∀ name, first.tracks name = true ↔ name ∈ initial := by
    intro name
    rw [Project.tracks_eq, contents, Listing.get?_ofList, ← Listing.mem_names_iff, Listing.names,
      map_reverse, mem_reverse, pathsOf]
  have some := (of_chooseFiles chosen).2
  refine ⟨⟨base, Project.isProper_of_contents (contents ▸ Listing.isProper_ofList pairs), ?_, ?_, ?_,
    ?_⟩, none⟩
  · simp [none]
  · simp [none, tracked]
  · simp [none]
  · obtain ⟨name, member⟩ := exists_mem_of_ne_nil initial some
    exact ⟨name, (tracked name).mpr member⟩

end Loaded

/-- The project that a run takes up: the one that it loads, or that of a snapshot. -/
inductive Takes (host : Host) (engine : Engine) : Run → Project → Prop where
  | fresh {root : Path} {files : List Value} {paths : List String} {project : Project}
      (chosen : ((fresh root files).begun engine).chooseFiles root files = .ok paths)
      (loaded : Project.load host.parsers ((fresh root files).begun engine).registry
        ((fresh root files).begun engine).world.disk root paths = .ok project) :
      Takes host engine (.fresh root files) project
  | resumed {point : Checkpoint} {archive : Archive} {registry : Grammar.Registry} {project : Project}
      (loaded : (resumed.begun engine).archive.resume (resumed.begun engine).world.disk =
        .ok (point, archive))
      (made : Engine.projectOf host registry point (Path.ofText point.record.root) = .ok project) :
      Takes host engine .resumed project

/-- Where the search of a run begins: with the project that was loaded, or with that of a snapshot and
where the snapshot was taken. -/
inductive Yields (host : Host) (engine : Engine) : Run → Progress → Prop where
  | fresh {root : Path} {files : List Value} {paths : List String} {project : Project} {now : Float}
      (chosen : ((fresh root files).begun engine).chooseFiles root files = .ok paths)
      (loaded : Project.load host.parsers ((fresh root files).begun engine).registry
        ((fresh root files).begun engine).world.disk root paths = .ok project) :
      Yields host engine (.fresh root files)
        { project, counters := { initialSize := project.size, startedAt := now } }
  | resumed {point : Checkpoint} {archive : Archive} {registry : Grammar.Registry} {project : Project}
      {counters : Counters} {now : Float}
      (loaded : (resumed.begun engine).archive.resume (resumed.begun engine).world.disk =
        .ok (point, archive))
      (made : Engine.projectOf host registry point (Path.ofText point.record.root) = .ok project)
      (counted : Counters.ofValue (.map point.record.counters) now = .ok counters) :
      Yields host engine .resumed
        { project
          bookmark := point.record.bookmark
          counters := if counters.initialSize = 0 then { counters with initialSize := project.size }
            else counters }

/-- A run takes up a project that lists each file once. -/
theorem Takes.isProper {project : Project} (takes : run.Takes host engine project) :
    project.files.IsProper := by
  cases takes with
  | fresh chosen loaded => exact (divides_of_load chosen loaded).1.proper
  | resumed loaded made => exact Engine.isProper_of_projectOf loaded made

theorem Yields.takes
    (yields : run.Yields host engine progress) : run.Takes host engine progress.project := by
  cases yields with
  | fresh chosen loaded => exact .fresh chosen loaded
  | resumed loaded made _ => exact .resumed loaded made

theorem Yields.isProper
    (yields : run.Yields host engine progress) : progress.project.files.IsProper :=
  yields.takes.isProper

/-- A run is interrupted before its search, once the driver was heard. -/
structure Ceases (run : Run) (host : Host) (engine : Engine) (result : Result) (after : Engine) :
    Prop where
  standing : after.standing = engine.standing
  heard : ∃ hearing, after.judge = engine.judge.hears hearing ∧ hearing.cancelled = true
  status : result.status = .interrupted
  counted : ∃ now, result.counters = { startedAt := now }
  takes : run.Takes host engine result.project
  size : result.initialSize = result.project.size

/-- A run comes to its search, with the bug reproduced and no wish to stop. -/
structure Reaches (run : Run) (host : Host) (engine : Engine) (progress : Progress) (begun : Engine) :
    Prop where
  turns : engine.Turns run.opening begun
  heard : ∃ hearing, begun.judge = engine.judge.hears hearing ∧ hearing.verdict.reproduces = true ∧
    hearing.cancelled = false
  going : begun.world.cancelled = false
  yields : run.Yields host engine progress

variable {begun : Engine}

/-- Nothing is pending where a search begins, and each file is listed once. -/
theorem Reaches.isSound (reaches : run.Reaches host engine progress begun) :
    (begun.begins progress).bench.IsSound :=
  ⟨rfl, reaches.yields.isProper⟩

theorem guarded_stalls {step : Step Engine α} {done : α → Engine → Prop} {taken : Project → Prop}
    (goes : engine.Goes phases begun) (ends : step.Ends done (Engine.Stalls host taken begun) begun) :
    (Engine.guarded step).Ends done (Engine.Stalls host taken engine) begun := by
  rw [Engine.guarded, ends_bind, ends_attempt]
  refine ends.imp (fun _ _ => id) fun failure stalled stalls => ?_
  obtain ⟨standing, unsettled, admits⟩ := stalls
  have standing := standing.trans goes.standing
  rw [Engine.Unsettled, goes.judge] at unsettled
  dsimp only
  split
  · next title titled =>
    -- a failure of the reduction is none of telling or keeping, so no wish to stop came before it
    have unsettled : ∀ other after, after.judge = stalled.judge →
        engine.Unsettled taken other after := by
      rintro other after judge
      rw [Engine.Unsettled, judge]
      refine unsettled.imp_right (Or.imp_right (Exists.imp fun hearing heard => ⟨heard.1, fun stop => ?_⟩))
      obtain ⟨_, -, lost⟩ := heard.2 stop
      have untitled : failure.title? = none := lost.elim (·.untitled) (·.untitled)
      simp [titled] at untitled
    refine (Engine.fail_goes stalled).bind ?_ ?_
    · rintro _ after ⟨_, goes⟩
      exact ⟨goes.standing.trans standing, unsettled failure after goes.judge, admits⟩
    · rintro other after ⟨_, goes, lost⟩
      exact ⟨goes.standing.trans standing, unsettled other after goes.judge, .of_none lost.untitled⟩
  · exact ⟨standing, unsettled, admits⟩

variable (run engine)
  (ceased : ∀ result after, run.Ceases host engine result after → done result after)
  (stopped : ∀ failure after, Engine.Stalls host (run.Takes host engine) engine failure after →
    failed failure after)

include ceased stopped

/-- What holds of a run that is interrupted or stops before its search, and of its search if it comes
to it, holds of the run. -/
theorem perform_opens
    (searched : ∀ progress begun, run.Reaches host engine progress begun →
      (Engine.search host progress).Ends done failed begun) :
    (run.perform host).Ends done failed engine := by
  cases run with
  | fresh root files =>
    rw [perform, Engine.start]
    refine (Engine.enter_goes engine _ _).and_eq.bind ?_ ?_
    · rintro _ _ ⟨goes, rfl⟩
      refine (guarded_stalls goes (Engine.verifyBaseline_vets root files _
        fun _ _ => .fresh)).bind ?_ stopped
      rintro _ vetted ⟨paths, project, chosen, loaded, ⟨turns, heard, reproduces, going, still⟩ |
        ⟨standing, heard, stop, status, rfl, counted, size⟩⟩
      · have turns := goes.turns.trans turns
        rw [goes.judge] at heard
        rw [ends_get_bind]
        refine (Engine.keepSnapshot_goes vetted _).bind ?_ ?_
        · intro _ kept more
          exact searched _ kept ⟨turns.trans more.turns, ⟨_, more.judge.trans heard, reproduces, going⟩,
            more.cancelled.trans still, .fresh chosen loaded⟩
        · rintro failure after ⟨more, lost⟩
          exact stopped failure after ⟨more.standing.trans turns.standing,
            .inr (.inr ⟨_, more.judge.trans heard, fun stop => by simp [going] at stop⟩),
            .of_none lost.untitled⟩
      · exact ceased _ _ ⟨standing.trans goes.standing, ⟨_, goes.judge ▸ heard, stop⟩, status, counted,
          .fresh chosen loaded, size⟩
    · rintro failure after ⟨⟨goes, lost⟩, -⟩
      exact stopped failure after (.of_goes goes (isAmong_of_none lost.untitled))
  | resumed =>
    rw [perform, Engine.resume, ends_get_bind]
    refine (Engine.enter_goes engine _ _).and_eq.bind ?_ ?_
    · rintro _ _ ⟨goes, rfl⟩
      refine (guarded_stalls goes (Engine.verifySnapshot_vets _
        fun _ _ _ _ => .resumed)).bind ?_ stopped
      rintro _ vetted ⟨point, archive, registry, project, loaded, made,
        ⟨turns, heard, reproduces, going, still⟩ | ⟨standing, heard, stop, status, rfl, counted, size⟩⟩
      · have turns := goes.turns.trans turns
        rw [goes.judge] at heard
        have unstopped : ∀ failure after, after.judge = vetted.judge →
            engine.Unsettled (resumed.Takes host engine) failure after := fun failure after judge =>
          .inr (.inr ⟨_, judge.trans heard, fun stop => by simp [going] at stop⟩)
        rw [ends_get_bind, ends_bind, ends_lift]
        refine ⟨fun counters counted => ?_, fun failure failed => ?_⟩
        · refine (Engine.log_goes vetted _ _).bind ?_ ?_
          · intro _ logged more
            exact searched _ logged ⟨turns.trans more.turns,
              ⟨_, more.judge.trans heard, reproduces, going⟩, more.cancelled.trans still,
              .resumed loaded made (mapError_eq_ok_iff.mp counted)⟩
          · rintro failure after ⟨more, lost⟩
            exact stopped failure after ⟨more.standing.trans turns.standing,
              unstopped failure after more.judge, .of_none lost.untitled⟩
        · exact stopped failure vetted ⟨turns.standing, unstopped failure vetted rfl,
            .of_none (confined_mapError (fun _ => rfl) failure failed).title?_eq_none⟩
      · exact ceased _ _ ⟨standing.trans goes.standing, ⟨_, goes.judge ▸ heard, stop⟩, status, counted,
          .resumed loaded made, size⟩
    · rintro failure after ⟨⟨goes, lost⟩, -⟩
      exact stopped failure after (.of_goes goes (isAmong_of_none lost.untitled))

/-- What holds of a run that is interrupted or stops before its search, and of all that its search
comes to, holds of the run. -/
theorem perform_reached
    (concluded : ∀ progress begun result after, run.Reaches host engine progress begun →
      Session.Concludes host (begun.begins progress) result after → done result after)
    (broke : ∀ progress begun failure after, run.Reaches host engine progress begun →
      Session.Breaks host (begun.begins progress) failure after → failed failure after) :
    (run.perform host).Ends done failed engine := by
  refine run.perform_opens engine ceased stopped fun progress begun reaches => ?_
  exact (Engine.search_reached reaches.yields.isProper reaches.going).imp
    (fun result after => concluded progress begun result after reaches)
    fun failure after => broke progress begun failure after reaches

end Run
end Whittle
