import Whittle.Proofs.Grounds
import Whittle.Proofs.Search.Steady

/-!
All through a search the disk holds the accepted project, and the bug was last reproduced
on a disk that held it. Trials keep that because they are transactions, and everything
else because records are kept apart from the files.
-/

namespace Whittle

open List

variable {grounds : Grounds} {project : Project} {engine after : Engine} {candidate : Candidate}
  {host : Host} {session : Session} {progress : Progress} {bench : Bench}

/-! ### What holds -/

/-- A disk holds a project: the accepted bytes of every tracked file, and no removed file. -/
structure Project.StandsOn (project : Project) (disk : Disk) : Prop where
  tracked : ∀ name data, project.contents.get? name = some data →
    disk.read (project.root.child name) = .ok data
  removed : ∀ name ∈ project.removed, disk.pathExists (project.root.child name) = .ok false

/-- At a scene the disk holds the accepted project, and so did the disk on which the bug was last
reproduced. -/
structure Scene.Faithful (scene : Scene) : Prop where
  stands : scene.project.StandsOn scene.disk
  heard : ∃ hearing, scene.hearings.find? (·.verdict.reproduces) = some hearing ∧
    scene.project.StandsOn hearing.disk

def Phase.isSettled : Phase → Bool
  | .selectingPass | .generatingCandidate | .testing | .accepting | .rejecting | .fixpoint
  | .interrupted => true
  | _ => false

/-- The files of a project, and those removed from it, have their places on the grounds. -/
structure Grounds.Bears (grounds : Grounds) (project : Project) : Prop where
  root : project.root = grounds.root
  proper : project.files.IsProper
  tracked : ∀ name, project.tracks name = true → name ∈ grounds.names
  removed : ∀ name ∈ project.removed,
    name ∈ grounds.names ∧ project.contents.get? name = none

/-- What an engine runs: its driver and its passes. -/
structure Outfit where
  driver : String
  passes : List Pass

namespace Engine

def outfit (engine : Engine) : Outfit where
  driver := engine.driver
  passes := engine.passes

def records (engine : Engine) : List Path :=
  engine.archive.directory :: (engine.journal.map (·.eventFile)).toList

/-- An engine of an outfit can work on the grounds. -/
structure Poised (grounds : Grounds) (outfit : Outfit) (engine : Engine) : Prop where
  fits : grounds.Fits engine.world.disk
  records : engine.records = grounds.records
  driver : engine.driver = outfit.driver
  passes : engine.passes = outfit.passes

/-- An engine works on a project that is on disk, and was so when the bug was last reproduced. -/
structure Upholds (grounds : Grounds) (outfit : Outfit) (project : Project) (engine : Engine) : Prop
    extends Poised grounds outfit engine where
  bears : grounds.Bears project
  shows : grounds.toLayout.Shows engine.world.disk (project.contents.get?)
  heard : ∃ hearing, engine.judge.hearings.find? (·.verdict.reproduces) = some hearing ∧
    hearing.Of grounds.toLayout (project.contents.get?)

variable {outfit : Outfit}

theorem within_of_records {margin : Margin} (linkless : margin.Linkless engine.world.disk)
    (held : ∀ path ∈ engine.records, margin.Holds engine.world.disk path) : engine.Within margin where
  linkless := linkless
  archive := held _ mem_cons_self
  journal journal same := by
    refine held _ ?_
    rw [records, same]
    exact mem_cons_of_mem _ (mem_singleton.mpr rfl)

namespace Poised

theorem within (poised : engine.Poised grounds outfit) : engine.Within grounds.margin :=
  within_of_records poised.fits.linkless (poised.records ▸ poised.fits.records)

theorem notes (poised : engine.Poised grounds outfit) (notes : Notes grounds.margin engine after) :
    after.Poised grounds outfit where
  fits := poised.fits.tends notes.tends
  records := by
    rw [← poised.records, Engine.records, notes.directory, notes.journal]
    rfl
  driver := notes.driver.trans poised.driver
  passes := notes.passes.trans poised.passes

end Poised

end Engine

theorem Grounds.Bears.inner (bears : grounds.Bears project)
    (name : String) (tracked : project.tracks name = true) : Path.IsInner name :=
  grounds.inner name (bears.tracked name tracked)

theorem Grounds.Bears.standsOn {disk : Disk}
    (bears : grounds.Bears project) (fits : grounds.toLayout.Fits disk)
    (shows : grounds.toLayout.Shows disk (project.contents.get?)) :
    project.StandsOn disk where
  tracked name data found := by
    have tracked : project.tracks name = true := by
      rw [Project.get?_contents, Option.map_eq_some_iff] at found
      obtain ⟨file, found, -⟩ := found
      exact Project.tracks_iff.mpr ⟨file, found⟩
    have member := bears.tracked name tracked
    rw [bears.root]
    exact (fits.read_eq_ok_iff member).mpr ((shows name member).trans found)
  removed name gone := by
    obtain ⟨member, none⟩ := bears.removed name gone
    rw [bears.root, fits.pathExists member, shows name member, none]
    rfl

namespace Engine.Upholds

variable {outfit : Outfit}

section

variable (upholds : engine.Upholds grounds outfit project)

include upholds

theorem notes
    (notes : Notes grounds.margin engine after) : after.Upholds grounds outfit project where
  toPoised := upholds.toPoised.notes notes
  bears := upholds.bears
  shows := Grounds.shows_of_tends notes.tends upholds.shows
  heard := notes.judge ▸ upholds.heard

theorem into (phase : Phase) : (engine.into phase).Upholds grounds outfit project :=
  { upholds with }

theorem scene (phase : Phase) {bookmark : Bookmark} {counters : Counters} {written : List Int} :
    ({ phase, project, disk := engine.world.disk, hearings := engine.judge.hearings, bookmark,
       counters, written } : Scene).Faithful := by
  obtain ⟨hearing, found, tells⟩ := upholds.heard
  exact ⟨upholds.bears.standsOn upholds.fits.layout upholds.shows, hearing, found,
    upholds.bears.standsOn tells.fits tells.shows⟩

end

end Engine.Upholds

/-! ### Trials -/

/-- A candidate that is refused leaves the last reproduction of the bug what it was. -/
theorem Trial.Refused.latest {layout : Layout} {parsers : Parsers} {before : Bench} {hearings : List Hearing}
    (refused : Refused layout parsers before candidate hearings) :
    hearings.find? (·.verdict.reproduces) = before.judge.hearings.find? (·.verdict.reproduces) := by
  cases refused with
  | unparsed => rfl
  | notSmaller => rfl
  | judged _ not _ => exact find?_cons_of_neg (by simp [not])

/-- Where a candidate finds nothing it leaves nothing. -/
theorem Candidate.Turns.eq_none {old new : String → Option Bytes}
    (turns : candidate.Turns old new) {name : String} (missing : old name = none) :
    new name = none := by
  by_cases gone : name ∈ candidate.removed
  · exact turns.removed name gone
  · by_cases own : candidate.path = some name → candidate.splices = []
    · rw [turns.kept name gone own, missing]
    · rw [Classical.not_imp] at own
      obtain ⟨data, _, found, -⟩ := turns.spliced name gone own.1 own.2
      rw [missing] at found
      cases found

namespace Session

/-- The disk holds the accepted project, here and at every scene before, and each phase of the
search has its scene. -/
structure Faithful (grounds : Grounds) (outfit : Outfit) (session : Session) : Prop where
  upholds : session.engine.Upholds grounds outfit session.progress.project
  root : session.worktree.root = grounds.root
  clean : session.worktree.pending = []
  scenes : ∀ scene ∈ session.scenes, scene.Faithful
  told : session.engine.trail.filter Phase.isSettled =
    (session.scenes.map (·.phase)).filter Phase.isSettled

/-- Between two moments of a faithful search nothing was accepted, and nothing that was heard was
forgotten. -/
structure Abides (grounds : Grounds) (outfit : Outfit) (before after : Session) : Prop where
  faithful : after.Faithful grounds outfit
  project : after.progress.project = before.progress.project
  hearings : before.engine.judge.hearings ⊆ after.engine.judge.hearings

variable {outfit : Outfit}

theorem Abides.refl (faithful : session.Faithful grounds outfit) :
    Abides grounds outfit session session :=
  ⟨faithful, rfl, List.Subset.refl _⟩

theorem Abides.trans {first second third : Session} (one : Abides grounds outfit first second)
    (other : Abides grounds outfit second third) : Abides grounds outfit first third :=
  ⟨other.faithful, other.project.trans one.project, List.Subset.trans one.hearings other.hearings⟩

namespace Faithful

theorem begins (upholds : engine.Upholds grounds outfit progress.project)
    (untold : engine.trail.filter Phase.isSettled = []) :
    Faithful grounds outfit (engine.begins progress) :=
  ⟨upholds, upholds.bears.root, rfl, fun _ member => (by cases member), untold⟩

section

variable (faithful : session.Faithful grounds outfit)

include faithful

theorem settled : session.bench.Settled grounds.toLayout where
  root := faithful.root
  clean := faithful.clean
  fits := faithful.upholds.fits.layout
  shows := faithful.upholds.shows
  proper := faithful.upholds.bears.proper
  tracked := faithful.upholds.bears.tracked

/-- A bench that has come to be settled again, with a project on which the bug was last reproduced,
is one to go on with. -/
theorem of_settled (settled : bench.Settled grounds.toLayout)
    (drifts : grounds.drift.drifts session.bench.world.disk bench.world.disk)
    (root : bench.project.root = session.progress.project.root)
    (removed : ∀ name ∈ bench.project.removed,
      name ∈ grounds.names ∧ bench.project.contents.get? name = none)
    (heard : ∃ hearing, bench.judge.hearings.find? (·.verdict.reproduces) = some hearing ∧
      hearing.Of grounds.toLayout (bench.project.contents.get?)) :
    (session.withBench bench).Faithful grounds outfit where
  upholds :=
    { fits := drifts faithful.upholds.fits
      records := faithful.upholds.records
      driver := faithful.upholds.driver
      passes := faithful.upholds.passes
      bears :=
        { root := root.trans faithful.upholds.bears.root
          proper := settled.proper
          tracked := settled.tracked
          removed }
      shows := settled.shows
      heard }
  root := settled.root
  clean := settled.clean
  scenes := faithful.scenes
  told := faithful.told

theorem of_returns (returns : Bench.Returns grounds.toLayout grounds.drift session.bench bench)
    (latest : bench.judge.hearings.find? (·.verdict.reproduces) =
      session.engine.judge.hearings.find? (·.verdict.reproduces)) :
    (session.withBench bench).Faithful grounds outfit := by
  have project : bench.project = session.progress.project := returns.project
  refine faithful.of_settled returns.settled returns.drifts (congrArg Project.root project) ?_ ?_
  · rw [project]
    exact faithful.upholds.bears.removed
  · rw [latest, project]
    exact faithful.upholds.heard

theorem of_commits {trial : Trial}
    (commits : Trial.Commits grounds.toLayout grounds.drift session.bench trial bench) :
    (session.withBench bench).Faithful grounds outfit := by
  refine faithful.of_settled commits.settled commits.drifts commits.root (fun name gone => ?_) ?_
  · rcases (commits.removed name).mp gone with old | new
    · obtain ⟨member, none⟩ := faithful.upholds.bears.removed name old
      exact ⟨member, commits.turns.eq_none none⟩
    · exact ⟨commits.gone name new, commits.turns.removed name new⟩
  · obtain ⟨hearing, heard, -, reproduces, tells⟩ := commits.heard
    exact ⟨hearing, by rw [heard]; exact find?_cons_of_pos reproduces, tells⟩

end

end Faithful

/-! ### The single acts of a search -/

/-- A trial keeps a session faithful, and what it does not accept it has refused. -/
theorem trial_ends_faithful
    (undisturbed : grounds.toLayout.Undisturbed grounds.drift host outfit.driver {})
    (writable : grounds.toLayout.Writable) (candidate : Candidate)
    (faithful : session.Faithful grounds outfit) :
    (trial host candidate).Ends
      (fun trial after => after.Faithful grounds outfit ∧ (trial.committed = false →
        after.progress.project = session.progress.project ∧
          Trial.Refused grounds.toLayout host.parsers session.bench candidate
            after.engine.judge.hearings))
      (fun _ => Faithful grounds outfit) session := by
  rw [trial, ends_get_bind]
  rw [faithful.upholds.driver, ends_bind, onBench, ends_within]
  refine (Trial.run_ends candidate undisturbed faithful.settled).imp ?_ ?_
  · rintro trial bench ⟨⟨-, concludes⟩, -⟩
    have kept : (session.withBench bench).Faithful grounds outfit ∧ (trial.committed = false →
        bench.project = session.progress.project ∧
          Trial.Refused grounds.toLayout host.parsers session.bench candidate
            bench.judge.hearings) := by
      split at concludes
      · next committed =>
        exact ⟨faithful.of_commits concludes, fun rejected => by simp [rejected] at committed⟩
      · obtain ⟨returns, refused⟩ := concludes
        exact ⟨faithful.of_returns (returns writable) refused.latest,
          fun _ => ⟨(returns writable).project, refused⟩⟩
    rw [ends_get_bind, ends_ite]
    exact ⟨fun _ => kept.1, fun _ => kept⟩
  · intro failure bench fails
    obtain ⟨returns, unheard⟩ := fails.1 writable
    exact faithful.of_returns returns (by rw [unheard rfl]; rfl)

section

variable (faithful : session.Faithful grounds outfit)

include faithful

/-- What an engine does to its records only, it can do in a faithful session. -/
theorem onEngine_ends_abides {α : Type} {step : Step Engine α}
    (ends : step.Leaves (Engine.Notes grounds.margin session.engine) session.engine) :
    (onEngine step).Leaves (Abides grounds outfit session) session := by
  have noted : ∀ engine, Engine.Notes grounds.margin session.engine engine →
      Abides grounds outfit session { session with engine } := fun engine notes =>
    ⟨{ faithful with
        upholds := faithful.upholds.notes notes
        told := notes.trail ▸ faithful.told }, rfl, by rw [notes.judge]; exact List.Subset.refl _⟩
  rw [Step.Leaves, onEngine, ends_within]
  exact ends.mono noted

theorem scenes_mark (phase : Phase) :
    ∀ scene ∈ session.scene phase :: session.scenes, scene.Faithful := by
  intro scene member
  rcases mem_cons.mp member with rfl | old
  · exact faithful.upholds.scene phase
  · exact faithful.scenes scene old

theorem enter_ends_abides (phase : Phase) (data : List (String × Value)) :
    (enter phase data).Leaves (Abides grounds outfit session) session := by
  have entered : ∀ engine, Engine.Notes grounds.margin (session.engine.into phase) engine →
      Abides grounds outfit session
        { session with scenes := session.scene phase :: session.scenes, engine } := fun engine notes =>
    { faithful :=
        { faithful with
          upholds := (faithful.upholds.into phase).notes notes
          scenes := scenes_mark faithful phase
          told := by
            rw [notes.trail, Engine.into, filter_cons, faithful.told, map_cons,
              filter_cons]
            rfl }
      project := rfl
      hearings := by rw [notes.judge]; exact List.Subset.refl _ }
  rw [Step.Leaves, enter, ends_bind, mark, ends_modify, onEngine, ends_within]
  exact (Engine.enter_ends faithful.upholds.within phase data).mono entered

end

/-- As phases begin and things are noted, nothing is accepted. -/
theorem calm_abides (before : Session) : Calm (fun _ => True) (Abides grounds outfit before) where
  enter phase data _ abides := (enter_ends_abides abides.faithful phase data).mono
    fun _ => abides.trans
  log kind data _ abides := (onEngine_ends_abides abides.faithful
      (Engine.log_ends abides.faithful.upholds.within kind data)).mono
    fun _ => abides.trans
  snapshot _ abides := (onEngine_ends_abides abides.faithful (Engine.keepSnapshot_ends
      abides.faithful.upholds.within abides.faithful.upholds.bears.inner)).mono
    fun _ => abides.trans
  note _ _ _ _ _ abides :=
    { abides with faithful := { abides.faithful with upholds := { abides.faithful.upholds with } } }

theorem calm_faithful : Calm (fun _ => True) (Faithful grounds outfit) where
  enter phase data _ faithful := ((calm_abides _).enter phase data _ (.refl faithful)).mono
    fun _ abides => abides.faithful
  log kind data _ faithful := ((calm_abides _).log kind data _ (.refl faithful)).mono
    fun _ abides => abides.faithful
  snapshot session faithful := ((calm_abides _).snapshot session (.refl faithful)).mono
    fun _ abides => abides.faithful
  note session _ _ _ marked faithful :=
    ((calm_abides _).note session _ _ _ marked (.refl faithful)).faithful

theorem steady_faithful (undisturbed : grounds.toLayout.Undisturbed grounds.drift host outfit.driver {})
    (writable : grounds.toLayout.Writable) : Steady host (Faithful grounds outfit) where
  toCalm := calm_faithful
  trial candidate _ faithful := (trial_ends_faithful undisturbed writable candidate faithful).imp
    (fun _ _ ends => ends.1) fun _ _ => id

end Session

/-! ### Whole searches -/

namespace Engine

variable {outfit : Outfit}

/-- How a search leaves an engine: the disk holds the accepted project, as it did at every scene, no
candidate is pending, and every phase of the search has its scene. -/
structure Rests (grounds : Grounds) (outfit : Outfit) (standing : Standing) (engine : Engine) :
    Prop where
  left : engine.standing = some standing
  upholds : engine.Upholds grounds outfit standing.progress.project
  clean : standing.worktree.pending = []
  scenes : ∀ scene ∈ standing.scenes, scene.Faithful
  told : engine.trail.filter Phase.isSettled <:+
    (standing.scenes.map (·.phase)).filter Phase.isSettled

theorem fail_keeps_rests (failure : Failure) (title : String) :
    (fail failure title).Keeps fun engine => ∃ standing, engine.Rests grounds outfit standing := by
  rintro engine ⟨standing, rests⟩
  have noted : ∀ after, (∃ phases, (∀ phase ∈ phases, phase = Phase.failed) ∧
      Notes grounds.margin { engine with trail := phases ++ engine.trail } after) →
      ∃ standing, after.Rests grounds outfit standing := by
    rintro after ⟨phases, failed, notes⟩
    have upholds : Upholds grounds outfit standing.progress.project
        { engine with trail := phases ++ engine.trail } := { rests.upholds with }
    have untold : phases.filter Phase.isSettled = [] := by
      refine filter_eq_nil_iff.mpr fun phase member => ?_
      rw [failed phase member]
      decide
    refine ⟨standing, { rests with
      left := notes.standing.trans rests.left
      upholds := upholds.notes notes
      told := ?_ }⟩
    rw [notes.trail, filter_append, untold]
    exact rests.told
  exact (fail_ends rests.upholds.within failure title).mono noted

theorem rests_of_faithful {scenes : List Scene} (faithful : session.Faithful grounds outfit)
    (upholds : engine.Upholds grounds outfit session.progress.project)
    (all : ∀ scene ∈ scenes, scene.Faithful)
    (told : engine.trail.filter Phase.isSettled <:+ (scenes.map (·.phase)).filter Phase.isSettled) :
    Rests grounds outfit { session.toStanding with scenes }
      { engine with standing := some { session.toStanding with scenes } } :=
  ⟨rfl, { upholds with }, faithful.clean, all, told⟩

/-- A search that begins with the project on disk leaves it so, however it ends. -/
theorem search_rests (undisturbed : grounds.toLayout.Undisturbed grounds.drift host outfit.driver {})
    (writable : grounds.toLayout.Writable) (upholds : engine.Upholds grounds outfit progress.project)
    (untold : engine.trail.filter Phase.isSettled = []) :
    (search host progress).Leaves (fun after => ∃ standing, after.Rests grounds outfit standing) engine := by
  refine search_ends_of ((Session.steady_faithful undisturbed writable).rounds _ _ _
    (.begins upholds untold)) ?_ (fun phase session faithful => ?_) fail_keeps_rests
  · intro failure session faithful
    exact ⟨_, rests_of_faithful faithful faithful.upholds faithful.scenes
      (faithful.told ▸ suffix_refl _)⟩
  let scenes := session.scene phase :: session.scenes
  have all : ∀ scene ∈ scenes, scene.Faithful := Session.scenes_mark faithful phase
  have told : (phase :: session.engine.trail).filter Phase.isSettled =
      (scenes.map (·.phase)).filter Phase.isSettled := by
    rw [filter_cons, faithful.told, map_cons, filter_cons]
    rfl
  have entered : ∀ engine, Notes grounds.margin (session.engine.into phase) engine →
      ∃ standing, Rests grounds outfit standing
        { engine with standing := some (session.closed phase) } := fun engine notes =>
    ⟨_, rests_of_faithful faithful ((faithful.upholds.into phase).notes notes) all
      ((congrArg (filter Phase.isSettled) notes.trail).trans told ▸ suffix_refl _)⟩
  refine (finish_ends faithful.upholds.within faithful.upholds.bears.inner phase _).imp
    (fun _ engine finished => entered engine finished.1) ?_
  rintro _ engine (notes | notes)
  · refine ⟨_, rests_of_faithful faithful (faithful.upholds.notes notes) all ?_⟩
    rw [notes.trail, faithful.told]
    exact (suffix_cons _ _).filter _
  · exact entered engine notes

end Engine
end Whittle
