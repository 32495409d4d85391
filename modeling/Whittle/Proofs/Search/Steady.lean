import Whittle.Proofs.Search.Walk

/-!
What holds all through a search, whatever it has come to. A search is guided by what is known of its
single acts: as phases begin, when a candidate is tried, and when it is accepted or rejected
(`Session.Guided`). From that follows what the rounds leave (`Session.Guided.rounds`). A property
that all single acts keep is kept by the rounds (`Session.Steady.rounds`).
-/

namespace Whittle

variable {host : Host} {known : Option String → Prop} {offered : Project → Candidate → Prop}
  {property : Session → Prop} {tried : Trial → Session → Prop} {failed : Failure → Session → Prop}
  {session : Session}

namespace Session

/-! ### Searches by their single acts -/

/-- What is known of the single acts of a search: `property` holds between candidates, `tried` once
a candidate was tried and until that is noted, and `failed` when the search fails. Candidates are
made for targets that are `known` only, and only those that are `offered` for the accepted project
are tried. -/
structure Guided (host : Host) (known : Option String → Prop) (offered : Project → Candidate → Prop)
    (property : Session → Prop) (tried : Trial → Session → Prop)
    (failed : Failure → Session → Prop) : Prop where
  target : ∀ session path, property session → session.hasTarget path = true → known path
  offers : ∀ session (pass : Pass) path index position, property session → known path →
    (∀ candidates, pass.proposals session.progress.project path index position = .ok candidates →
      ∀ candidate ∈ candidates, offered session.progress.project candidate) ∧
    ∀ failure, pass.proposals session.progress.project path index position = .error failure →
      failed failure session
  unplaced : ∀ session resume path failure, property session →
    positionAt resume path = .error failure → failed failure session
  enter : ∀ phase data session, phase ≠ .accepting → property session →
    (enter phase data).Ends (fun _ => property) failed session
  log : ∀ kind data session, property session →
    (onEngine (Engine.log kind data)).Ends (fun _ => property) failed session
  trial : ∀ candidate session, offered session.progress.project candidate → session.IsMarked →
    property session → (trial host candidate).Ends tried failed session
  accept : ∀ trial session, trial.committed = true → tried trial session →
    (accept trial).Ends (fun _ => property) failed session
  reject : ∀ trial session, trial.committed = false → tried trial session →
    (reject trial).Ends (fun _ => property) failed session

namespace Guided

variable (guided : Guided host known offered property tried failed)

include guided

/-- The rounds of a search leave what its single acts do. -/
theorem rounds (resume : Option Bookmark) (first : Nat) (so : property session) :
    Step.Ends (rounds host resume first) (fun _ => property) failed session := by
  have holds : Guide.Holds host
      { known, offered, failed
        chooses := fun _ => property
        here := fun _ => property
        ready := fun _ _ => property
        tried := fun _ _ => tried
        ended := fun _ => property } := by
    constructor
    case goes => exact fun _ _ => trivial
    case target => exact fun _ => guided.target
    case numbers => exact fun _ _ _ _ _ _ => trivial
    case select =>
      exact fun _ _ _ session _ so => (guided.enter _ _ session (by simp) so).imp
        (fun _ _ so => ⟨fun _ => so, fun _ => so⟩) fun _ _ => id
    case unplaced => exact fun _ session resume path failure _ => guided.unplaced session resume path failure
    case generate => exact fun _ _ _ session _ => guided.enter _ _ session (by simp)
    case offers => exact fun _ => guided.offers
    case test =>
      intro _ _ candidate session offered so
      refine ((guided.enter _ _ session (by simp) so).and ((enter_moves session _ _).and
        (enter_marks _ _ session))).imp ?_ fun _ _ => And.left
      rintro _ testing ⟨so, ⟨moves, -⟩, marked⟩
      exact guided.trial candidate testing (moves.project ▸ offered) marked so
    case accept => exact fun _ _ => guided.accept
    case reject =>
      exact fun _ _ trial session rejected so => (guided.reject trial session rejected so).imp
        (fun _ noted so => ⟨fun _ => so, fun _ _ _ => guided.enter _ _ noted (by simp) so⟩)
        fun _ _ => id
    case settle => exact fun _ _ _ _ _ _ _ _ _ _ so => so
    case log => exact fun _ _ _ session _ => guided.log _ _ session
    case stop => exact fun _ _ _ session _ _ => guided.enter _ _ session (by simp)
    case rest => exact fun _ _ _ _ _ so _ => so
    case fixpoint => exact fun _ _ _ _ _ so _ _ => so
  exact holds.rounds resume first so

end Guided

/-! ### Properties that all acts keep -/

/-- A property that is kept, however that ends, as phases begin and things are noted; the bookmarks
that are set are among some. -/
structure Quiet (marks : Bookmark → Prop) (property : Session → Prop) : Prop where
  enter : ∀ phase data, (enter phase data).Keeps property
  log : ∀ kind data, (onEngine (Engine.log kind data)).Keeps property
  note : ∀ (session : Session) unsaved bookmark counters, marks bookmark → property session →
    property { session with
      engine := { session.engine with unsaved }
      progress := { session.progress with bookmark, counters } }

/-- A property that is kept when snapshots are taken as well. -/
structure Calm (marks : Bookmark → Prop) (property : Session → Prop) : Prop extends
    Quiet marks property where
  snapshot : ∀ session, property session →
    (onEngine (Engine.keepSnapshot session.progress)).Leaves property session

/-- A property that trials keep as well, so that all single acts of a search do. -/
structure Steady (host : Host) (property : Session → Prop) : Prop extends
    Calm (fun _ => True) property where
  trial : ∀ candidate, (trial host candidate).Keeps property

section Acts

variable {marks : Bookmark → Prop} {trial : Trial}

section

variable (quiet : Quiet marks property) (marked : marks trial.candidate.bookmark)

include quiet marked

theorem Quiet.accept {done : Session → Prop} (less : ∀ session, property session → done session)
    (snapshot : ∀ session, property session →
      (onEngine (Engine.keepSnapshot session.progress)).Leaves done session) (so : property session) :
    (accept trial).Leaves done session := by
  rw [Session.accept]
  refine (quiet.enter _ _ session so).bind ?_ fun _ => less
  intro _ entered so
  rw [ends_get_bind, ends_ite]
  refine ⟨fun _ => less entered so, fun _ => ?_⟩
  rw [ends_bind, ends_modify]
  refine (quiet.log _ _ _ (quiet.note entered _ _ _ marked so)).bind ?_ fun _ => less
  intro _ logged so
  rw [ends_get_bind]
  exact snapshot logged so

theorem Quiet.reject : (reject trial).Keeps property := by
  refine (quiet.enter _ _).bind fun _ => ?_
  refine Step.Keeps.bind (keeps_modify fun session so =>
    quiet.note session session.engine.unsaved _ _ marked so) fun _ => ?_
  refine (quiet.log _ _).bind fun _ => Step.keeps_get.bind fun session => ?_
  refine (keeps_pure _).ite ((keeps_lift _).bind fun exceeded => ?_)
  exact (keeps_throw _).ite (keeps_pure _)

end

theorem Calm.accept (calm : Calm marks property) (marked : marks trial.candidate.bookmark) :
    (accept trial).Keeps property :=
  fun _ so => calm.toQuiet.accept marked (fun _ => id) calm.snapshot so

theorem Steady.guided (steady : Steady host property) :
    Guided host (fun _ => True) (fun _ _ => True) property (fun _ => property) fun _ => property where
  target _ _ _ _ := trivial
  offers _ _ _ _ _ so _ := ⟨fun _ _ _ _ => trivial, fun _ _ => so⟩
  unplaced _ _ _ _ so _ := so
  enter phase data session _ := steady.enter phase data session
  log kind data := steady.log kind data
  trial candidate session _ _ so := steady.trial candidate session so
  accept _ session _ so := steady.toCalm.accept trivial session so
  reject _ session _ so := steady.toQuiet.reject trivial session so

/-- What guides a search can be joined with what all of its acts keep. -/
theorem Guided.also {property' : Session → Prop}
    (guided : Guided host known offered property' tried failed) (steady : Steady host property) :
    Guided host known offered (fun session => property' session ∧ property session)
      (fun trial session => tried trial session ∧ property session)
      fun failure session => failed failure session ∧ property session where
  target session path so := guided.target session path so.1
  offers session pass path index position so known := by
    obtain ⟨offers, fails⟩ := guided.offers session pass path index position so.1 known
    exact ⟨offers, fun failure failed => ⟨fails failure failed, so.2⟩⟩
  unplaced session resume path failure so failed :=
    ⟨guided.unplaced session resume path failure so.1 failed, so.2⟩
  enter phase data session other so :=
    (guided.enter phase data session other so.1).and (steady.enter phase data session so.2)
  log kind data session so :=
    (guided.log kind data session so.1).and (steady.log kind data session so.2)
  trial candidate session offers marked so :=
    (guided.trial candidate session offers marked so.1).and (steady.trial candidate session so.2)
  accept trial session committed so := (guided.accept trial session committed so.1).and
    (steady.toCalm.accept trivial session so.2)
  reject trial session rejected so := (guided.reject trial session rejected so.1).and
    (steady.toQuiet.reject trivial session so.2)

theorem Steady.rounds (steady : Steady host property) (resume : Option Bookmark) (first : Nat) :
    Step.Keeps (rounds host resume first) property :=
  fun _ so => steady.guided.rounds resume first so

end Acts

def closed (session : Session) (status : Phase) : Standing :=
  { session.toStanding with scenes := session.scene status :: session.scenes }

def leaves (session : Session) : Engine :=
  { session.engine with standing := some session.toStanding }

end Session

/-! ### Searches as steps of an engine -/

namespace Engine

def begins (engine : Engine) (progress : Progress) : Session :=
  { engine, progress, worktree := { root := progress.project.root } }

variable {α : Type} {engine : Engine} {done : α → Engine → Prop} {progress : Progress}

theorem ends_inSession {failed : Failure → Engine → Prop} {step : Step Session α} :
    (inSession progress step).Ends done failed engine ↔
      step.Ends (fun value after => done value after.leaves)
        (fun failure after => failed failure after.leaves) (engine.begins progress) := by
  unfold Step.Ends
  let ended := step.runOn (engine.begins progress)
  change Step.Outcome done failed (ended.1, ended.2.leaves) ↔ Step.Outcome _ _ ended
  rcases ended with ⟨failure | value, after⟩ <;> rfl

/-- A step that is guarded ends as it would, but for the phase that a failure leads to. -/
theorem guarded_fails {failed : Failure → Engine → Prop} {step : Step Engine α}
    (ends : step.Ends done failed engine)
    (keeps : ∀ failure title after, failure.title? = some title → failed failure after →
      (fail failure title).Ends (fun _ => failed failure) failed after) :
    (guarded step).Ends done failed engine := by
  rw [guarded, ends_bind, ends_attempt]
  refine ends.imp (fun _ _ => id) fun failure after so => ?_
  dsimp only
  split
  · next titled => exact (keeps failure _ after titled so).bind (fun _ _ => id) fun _ _ => id
  · exact so

theorem guarded_ends {left : Engine → Prop} {step : Step Engine α}
    (ends : step.Ends done (fun _ => left) engine)
    (keeps : ∀ failure title, (fail failure title).Keeps left) :
    (guarded step).Ends done (fun _ => left) engine :=
  guarded_fails ends fun failure title after _ => keeps failure title after

section Search

variable {ended : Phase → Session → Prop} {lost : Failure → Session → Prop}
  {done : Result → Engine → Prop} {failed : Failure → Engine → Prop}
  (rounds : Step.Ends (Session.rounds host (resumeMark progress.bookmark)
    (firstPass progress.bookmark engine.passes.length)) ended lost (engine.begins progress))
  (loses : ∀ failure session, lost failure session → failed failure session.leaves)
  (finishes : ∀ phase session, ended phase session →
    (finish session.progress phase session.progress.counters.initialSize).Ends
      (fun result after => done result { after with standing := some (session.closed phase) })
      (fun failure after => failed failure { after with standing := some (session.closed phase) })
      session.engine)

include rounds loses finishes

/-- What is searched ends as its rounds do, and as the engine ends where they leave it. -/
theorem searched_ends : (inSession progress do
      let phase ← (Session.rounds host (resumeMark progress.bookmark)
        (firstPass progress.bookmark engine.passes.length) : Step Session Phase)
      Session.mark phase
      let progress := (← get).progress
      Session.onEngine (finish progress phase progress.counters.initialSize)).Ends done failed
      engine := by
  refine ends_inSession.mpr (Step.Ends.bind rounds (fun phase session so => ?_) loses)
  rw [ends_bind, Session.mark, ends_modify, ends_get_bind, Session.onEngine, ends_within]
  exact finishes phase session so

theorem search_ends_of (keeps : ∀ failure title after, failed failure after →
      (fail failure title).Ends (fun _ => failed failure) failed after) :
    (search host progress).Ends done failed engine := by
  rw [search, ends_get_bind]
  exact guarded_fails (searched_ends rounds loses finishes) fun failure title after _ =>
    keeps failure title after

end Search
end Engine
end Whittle
