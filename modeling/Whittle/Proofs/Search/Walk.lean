import Whittle.Proofs.Bench
import Whittle.Proofs.Listing
import Whittle.Proofs.Search.Acts

/-!
The way of a search through its loops, followed once for all that is to be known of it. A guide says
what holds between the single acts of a search, by a tally of what was accepted and of what has had
nothing more to offer since (`Session.Guide`); it holds of a search if each act does its part
(`Session.Guide.Holds`), and then it holds of all parts of the search, up to the rounds
(`Session.Guide.Holds.rounds`).

The loops come to an end whatever the driver answers. A candidate is accepted only if it makes the
project smaller, so accepted candidates are paid for in bytes (`Session.Spent`), and every loop that
goes round again has spent something: the loop over one target and that over a pass spend bytes, and
that over the catalog spends bytes or the one round that a bookmark begins in the middle. They are
given here once more as bodies that are repeated without a bound (`Session.targetBody`,
`Session.passBody`, `Session.roundBody`).
-/

namespace Whittle

open Step

open List

variable {host : Host} {session first second third : Session} {tally : Tally} {count : Nat}
  {guide : Guide} {passes : List Pass}

namespace Engine

theorem ends_judgeDisk {root : Path} {engine : Engine} {done : Verdict → Engine → Prop}
    {failed : Failure → Engine → Prop}
    (so : ∀ left, engine.judge.run host root engine.driver true engine.world = left →
      Judge.Ran host root engine.driver engine.judge engine.world left →
      Outcome done failed (left.1, { engine with judge := left.2.1, world := left.2.2 })) :
    (judgeDisk host root).Ends done failed engine :=
  so _ rfl (Judge.ran_run ..)

variable {property : Engine → Prop}

/-- Logging changes nothing but the world. -/
theorem log_keeps (same : ∀ engine world, property engine → property { engine with world })
    (kind : String) (data : List (String × Value)) : (log kind data).Keeps property := by
  refine keeps_get.bind fun engine => ?_
  split
  · exact keeps_within _ fun world engine => same engine world
  · exact keeps_pure _

/-- Going into a phase changes nothing but the world and the trail. -/
theorem enter_keeps
    (same : ∀ engine world trail, property engine → property { engine with world, trail })
    (phase : Phase) (data : List (String × Value)) : (enter phase data).Keeps property :=
  Step.Keeps.bind (keeps_modify fun engine => same engine engine.world _) fun _ =>
    log_keeps (fun engine world => same engine world engine.trail) _ _

theorem fail_keeps (enters : ∀ phase data, (enter phase data).Keeps property) (failure : Failure)
    (title : String) : (fail failure title).Keeps property :=
  keeps_get.bind fun _ => Step.Keeps.ite (enters _ _) (keeps_pure _)

/-- Taking a snapshot changes nothing but the archive, the world, and whether there is need of one. -/
theorem keepSnapshot_keeps (same : ∀ engine archive world unsaved, property engine →
      property { engine with archive, world, unsaved })
    (progress : Progress) : (keepSnapshot progress).Keeps property := by
  have logs : ∀ kind data, (log kind data).Keeps property :=
    log_keeps fun engine world => same engine engine.archive world engine.unsaved
  have offers : ∀ now, (onArchive (Archive.offer (fun _ => pure ()) progress.capture now)).Keeps
      property := fun _ => keeps_within _ fun pair engine => same engine pair.1 _ engine.unsaved
  exact fun engine so => keepSnapshot_ends_of (offers _ engine so)
    (fun engine => same engine engine.archive engine.world false) logs

end Engine

namespace Session

def bench (session : Session) : Bench where
  project := session.progress.project
  worktree := session.worktree
  judge := session.engine.judge
  world := session.engine.world

def withBench (session : Session) (bench : Bench) : Session :=
  { session with
    engine := { session.engine with judge := bench.judge, world := bench.world }
    progress := { session.progress with project := bench.project }
    worktree := bench.worktree }

/-! ### What is accepted -/

section Accepted

variable {accepted : Project}

/-- The latest scene tells where the search stands, and which snapshots were written. -/
def IsMarked (session : Session) : Prop :=
  ∃ scene ∈ session.scenes.head?, scene.progress = session.progress ∧
    scene.written = session.engine.archive.written

theorem enter_marks (phase : Phase) (data : List (String × Value)) (session : Session) :
    (enter phase data).Leaves IsMarked session := by
  let standing := { session.toStanding with scenes := session.scene phase :: session.scenes }
  have archived : (Engine.enter phase data).Keeps (·.archive = session.engine.archive) :=
    Engine.enter_keeps (fun _ _ _ so => so) phase data
  have kept : (onEngine (Engine.enter phase data)).Keeps fun after =>
      after.toStanding = standing ∧ after.engine.archive = session.engine.archive :=
    archived.within (fun _ so => so.2) fun _ _ so same => ⟨so.1, same⟩
  have marked : ∀ after : Session, after.toStanding = standing ∧
      after.engine.archive = session.engine.archive → after.IsMarked := by
    rintro ⟨_, engine⟩ ⟨rfl, same⟩
    exact ⟨session.scene phase, rfl, rfl, congrArg Archive.written same.symm⟩
  rw [Leaves, enter, ends_bind, mark, ends_modify]
  refine (kept _ ?_).mono marked
  exact ⟨rfl, rfl⟩

/-- A trial leaves the accepted project as it was, or commits the buffers that were made from it; these
make it smaller. -/
theorem trial_commits (host : Host) (candidate : Candidate) (session : Session) :
    (trial host candidate).Ends
      (fun trial after => (trial.candidate = candidate ∧ after.engine.trail = session.engine.trail) ∧
        (trial.committed = false ∧ after.progress.project = session.progress.project ∨
          (trial.committed = true ∧ 0 ≤ trial.sizeAfter ∧ trial.sizeAfter < session.size) ∧ ∃ buffers,
            session.progress.project.apply host.parsers candidate = .ok buffers ∧
            session.progress.project.commit buffers = (.ok (), after.progress.project)))
      (fun _ after => after.engine.trail = session.engine.trail ∧
        (after.progress.project = session.progress.project ∨
          ∃ buffers result, session.progress.project.apply host.parsers candidate = .ok buffers ∧
            session.progress.project.commit buffers = (result, after.progress.project))) session := by
  rw [trial, ends_get_bind, ends_bind, onBench, ends_within]
  refine (Trial.run_commits host session.engine.driver {} candidate _).imp ?_ ?_
  · rintro trial bench ⟨⟨same, before⟩, ends⟩
    rw [ends_get_bind, ends_ite]
    refine ⟨fun _ => ⟨rfl, ends.imp And.right fun ⟨_, buffers, applied, committed⟩ => ?_⟩,
      fun _ => ⟨⟨same, rfl⟩, ends.imp_right fun ⟨⟨is, smaller⟩, ends⟩ => ⟨⟨is, before ▸ smaller⟩, ends⟩⟩⟩
    exact ⟨buffers, .ok (), applied, committed⟩
  · rintro failure bench ends
    refine ⟨rfl, ends.imp_right ?_⟩
    rintro ⟨buffers, reason, applied, committed⟩
    exact ⟨buffers, .error reason, applied, committed⟩

end Accepted

theorem hasTarget_congr {before after : Session} (target : Option String)
    (same : after.progress.project = before.progress.project) :
    after.hasTarget target = before.hasTarget target := by
  rw [hasTarget.eq_def, hasTarget.eq_def, same]

theorem hasTarget_of_mem {pass : Pass} {target : Option String}
    (member : target ∈ targets pass session.progress.project) : session.hasTarget target = true := by
  cases target with
  | none => rfl
  | some path =>
    rw [targets] at member
    split at member
    · cases mem_singleton.mp member
    · obtain ⟨name, listed, same⟩ := mem_map.mp member
      cases same
      exact Listing.mem_names_iff.mp (mem_sortNames.mp listed)

/-! ### Guides -/

/-- What a search has come to: how many candidates were accepted, and, since the last of them, at
which targets the chosen pass and which passes at all targets had nothing more to offer. -/
structure Tally where
  accepted : Nat
  settled : List (Nat × Pass × Option String)
  exhausted : List (Nat × Pass)

namespace Tally

def zero : Tally :=
  ⟨0, [], []⟩

def accept (tally : Tally) : Tally :=
  ⟨tally.accepted + 1, [], []⟩

def select (tally : Tally) : Tally :=
  { tally with settled := [] }

/-- A pass had nothing to offer at a target from a position on, which is all if it is the first. -/
def settle (tally : Tally) (position : Option (List Int)) (target : Nat × Pass × Option String) :
    Tally :=
  if position = none then { tally with settled := target :: tally.settled } else tally

/-- From one session to another the tally has gone on by a count; if that is none, the project is the
same and what had nothing more to offer is so still. -/
structure Since (tally : Tally) (session : Session) (count : Nat) (later : Tally) (after : Session) :
    Prop where
  accepted : later.accepted = tally.accepted + count
  project : count = 0 → after.progress.project = session.progress.project
  settled : count = 0 → tally.settled ⊆ later.settled
  exhausted : count = 0 → tally.exhausted ⊆ later.exhausted

namespace Since

variable {later last : Tally} {more : Nat}

theorem of_same (same : second.progress.project = first.progress.project) :
    tally.Since first 0 tally second :=
  ⟨rfl, fun _ => same, fun _ _ => id, fun _ _ => id⟩

theorem trans (one : tally.Since first count later second)
    (other : later.Since second more last third) : tally.Since first (count + more) last third where
  accepted := by rw [other.accepted, one.accepted, Nat.add_assoc]
  project none := (other.project (by omega)).trans (one.project (by omega))
  settled none := List.Subset.trans (one.settled (by omega)) (other.settled (by omega))
  exhausted none := List.Subset.trans (one.exhausted (by omega)) (other.exhausted (by omega))

/-- What had nothing more to offer at single targets does not count beyond a pass. -/
theorem trans_select (one : tally.select.Since first count later second)
    (other : later.select.Since second more last third) :
    tally.select.Since first (count + more) last third := by
  have one : tally.select.Since first count later.select second :=
    { one with settled := fun _ => nil_subset _ }
  exact one.trans other

theorem accept (session after : Session) : tally.Since session 1 tally.accept after :=
  ⟨rfl, by simp, by simp, by simp⟩

theorem settle {position : Option (List Int)} {target : Nat × Pass × Option String}
    (same : second.progress.project = first.progress.project) :
    tally.Since first 0 (tally.settle position target) second := by
  unfold Tally.settle
  split
  · exact { of_same same with settled := fun _ => subset_cons_self _ _ }
  · exact of_same same

end Since
end Tally

/-- What a search is guided by. Before a pass is chosen, `chooses` holds; `here` between targets;
`ready` once candidates were made, with those that were refused since then; `tried` once a candidate
was tried and until that is noted; `ended` when the search ends and `failed` when it fails. Targets
are turned to only as long as the search `goes` on; passes are chosen by `numbers`, candidates are made
for targets that are `known` only, and only those that are `offered` for the accepted project are
tried. -/
structure Guide where
  goes : Session → Prop := fun _ => True
  numbers : Nat → Prop := fun _ => True
  known : Option String → Prop := fun _ => True
  offered : Project → Candidate → Prop := fun _ _ => True
  chooses : Tally → Session → Prop
  here : Tally → Session → Prop
  ready : Tally → List Candidate → Session → Prop
  tried : Tally → List Candidate → Trial → Session → Prop
  ended : Phase → Session → Prop
  failed : Failure → Session → Prop

/-- What is logged once a pass has swept over its targets. -/
def sweepData (pass : Pass) (count : Nat) (session : Session) : List (String × Value) :=
  [("pass_name", .text pass.name), ("accepted", .int count), ("size", .int session.size)]

/-- The single acts of a search do as a guide says. -/
structure Guide.Holds (host : Host) (guide : Guide) : Prop where
  goes : ∀ session, session.cancelled = false → guide.goes session
  target : ∀ tally session path, guide.here tally session → session.hasTarget path = true →
    guide.known path
  numbers : ∀ tally session first, guide.chooses tally session →
    ∀ entry ∈ numbered session.engine.passes first, guide.numbers entry.1
  select : ∀ index pass tally session, guide.numbers index → guide.chooses tally session →
    (select index pass).Ends
      (fun _ after => (after.cancelled = true → guide.ended .interrupted after) ∧
        (after.cancelled = false → guide.here tally.select after)) guide.failed session
  unplaced : ∀ tally session resume path failure, guide.goes session → guide.here tally session →
    positionAt resume path = .error failure → guide.failed failure session
  generate : ∀ pass path tally session, guide.goes session → guide.here tally session →
    (generate pass path).Ends (fun _ => guide.ready tally []) guide.failed session
  offers : ∀ tally session (pass : Pass) path index position, guide.ready tally [] session →
    guide.known path →
    (∀ candidates, pass.proposals session.progress.project path index position = .ok candidates →
      ∀ candidate ∈ candidates, guide.offered session.progress.project candidate) ∧
    ∀ failure, pass.proposals session.progress.project path index position = .error failure →
      guide.failed failure session
  test : ∀ tally refused candidate session, guide.offered session.progress.project candidate →
    guide.ready tally refused session →
    (enter .testing (origin candidate)).Ends
      (fun _ => (trial host candidate).Ends (guide.tried tally refused) guide.failed)
      guide.failed session
  accept : ∀ tally refused trial session, trial.committed = true →
    guide.tried tally refused trial session →
    (accept trial).Ends (fun _ => guide.here tally.accept) guide.failed session
  reject : ∀ tally refused trial session, trial.committed = false →
    guide.tried tally refused trial session →
    (reject trial).Ends
      (fun _ noted => (noted.cancelled = true → guide.here tally noted) ∧
        (noted.cancelled = false → ∀ pass path, (Session.generate pass path).Ends
          (fun _ => guide.ready tally (trial.candidate :: refused)) guide.failed noted))
      guide.failed session
  settle : ∀ tally refused session (index : Nat) (pass : Pass) path position candidates,
    pass.proposals session.progress.project path index position = .ok candidates →
    candidates ⊆ refused → guide.ready tally refused session →
    guide.here (tally.settle position (index, pass, path)) session
  log : ∀ (pass : Pass) (count : Nat) tally session, count ≤ tally.accepted →
    guide.here tally session → (onEngine (Engine.log "engine.sweep" (sweepData pass count session))).Ends
      (fun _ => guide.here tally) guide.failed session
  stop : ∀ index pass tally session, guide.numbers index → session.cancelled = true →
    guide.here tally session →
    (Session.select index pass).Ends (fun _ => guide.ended .interrupted) guide.failed session
  rest : ∀ (tally : Tally) session index pass, session.cancelled = false →
    guide.here tally session →
    (∀ target ∈ targets pass session.progress.project, (index, pass, target) ∈ tally.settled) →
    guide.chooses { tally with exhausted := (index, pass) :: tally.exhausted } session
  fixpoint : ∀ tally (later : Tally) session after, guide.chooses tally session →
    guide.chooses later after → numbered session.engine.passes 0 ⊆ later.exhausted →
    after = session ∨ later.exhausted ≠ [] → guide.ended .fixpoint after

namespace Guide

/-- How it ends to try candidates: one was accepted, or none, because the search is to stop or there
are no more. -/
def Tries (guide : Guide) (tally : Tally) (project : Project) (left : Session → Prop) :
    Option Candidate → Session → Prop
  | some _, after => guide.here tally.accept after
  | none, after => after.progress.project = project ∧
    (after.cancelled = true ∧ guide.here tally after ∨ left after)

variable (holds : guide.Holds host)

include holds

theorem Holds.tryEach (pass : Pass) (path : Option String) {candidates refused : List Candidate}
    (all : ∀ candidate ∈ candidates, guide.offered session.progress.project candidate)
    (ready : guide.ready tally refused session) :
    (tryEach host pass path candidates).Ends
      (guide.Tries tally session.progress.project fun after =>
        ∃ known, candidates ⊆ known ∧ refused ⊆ known ∧ guide.ready tally known after)
      guide.failed session := by
  -- as long as candidates are rejected, the project is the one that they are offered for
  generalize accepted : session.progress.project = project at all ⊢
  induction candidates generalizing session refused with
  | nil => exact ⟨accepted, .inr ⟨refused, nil_subset _, fun _ => id, ready⟩⟩
  | cons candidate rest ih =>
    rw [tryEach]
    refine ((holds.test tally refused candidate session
      (accepted ▸ all candidate mem_cons_self) ready).and
      (enter_moves session _ _)).bind ?_ fun _ _ => And.left
    rintro _ testing ⟨tries, moves, -⟩
    refine (tries.and (trial_commits host candidate testing)).bind ?_ fun _ _ => And.left
    rintro trial done ⟨tried, ⟨rfl, -⟩, commits⟩
    rw [ends_ite]
    constructor
    · intro committed
      exact (holds.accept tally refused trial done committed tried).bind (fun _ _ => id) fun _ _ => id
    · intro rejected
      have same := (commits.resolve_right fun other => rejected other.1.1).2.trans
        (moves.project.trans accepted)
      refine ((holds.reject tally refused trial done (Bool.eq_false_iff.mpr rejected) tried).and
        (reject_moves done trial)).bind ?_ fun _ _ => And.left
      rintro _ noted ⟨⟨stops, goes⟩, moves, -⟩
      have same := moves.project.trans same
      rw [ends_get_bind, ends_ite]
      refine ⟨fun stop => ⟨same, .inl ⟨stop, stops stop⟩⟩, fun going => ?_⟩
      refine ((goes (Bool.eq_false_iff.mpr going) pass path).and (enter_moves noted _ _)).bind ?_
        fun _ _ => And.left
      rintro _ generating ⟨ready, moves, -⟩
      refine (ih ready (moves.project.trans same) (forall_mem_cons.mp all).2).imp ?_ fun _ _ => id
      rintro (_ | found) after tries
      · refine ⟨tries.1, tries.2.imp_right ?_⟩
        rintro ⟨known, others, subset, ready⟩
        refine ⟨known, cons_subset.mpr ⟨subset mem_cons_self, others⟩, ?_, ready⟩
        exact List.Subset.trans (subset_cons_self _ _) subset
      · exact tries

theorem Holds.tryProposals (index : Nat) (pass : Pass) (path : Option String)
    (position : Option (List Int)) (aimed : guide.known path) (goes : guide.goes session)
    (here : guide.here tally session) :
    (tryProposals host index pass path position).Ends
      (guide.Tries tally session.progress.project
        (guide.here (tally.settle position (index, pass, path))))
      guide.failed session := by
  rw [Session.tryProposals]
  refine ((holds.generate pass path tally session goes here).and (enter_moves session _ _)).bind ?_
    fun _ _ => And.left
  rintro _ generating ⟨ready, moves, -⟩
  obtain ⟨offers, fails⟩ := holds.offers tally generating pass path index position ready aimed
  rw [ends_get_bind, ends_bind, ends_lift]
  refine ⟨fun candidates made => ?_, fails⟩
  refine (holds.tryEach pass path (offers candidates made) ready).imp ?_ fun _ _ => id
  rintro (_ | found) after tries
  · refine ⟨tries.1.trans moves.project, tries.2.imp_right ?_⟩
    rintro ⟨known, all, -, ready⟩
    exact holds.settle tally known after index pass path position candidates (tries.1 ▸ made) all ready
  · exact tries

end Guide

/-! ### Bytes spent on accepted candidates -/

/-- How many candidates the engine has accepted, by its trail. -/
def accepts (session : Session) : Nat :=
  session.engine.trail.count .accepting

/-- Between two moments of a search, some candidates were accepted, and each made the project
smaller. -/
structure Spent (count : Nat) (before after : Session) : Prop where
  accepts : after.accepts = before.accepts + count
  size : after.size + count ≤ before.size

/-- Between two moments of a search, at most as many candidates were accepted as the project had
bytes. -/
def Afforded (before after : Session) : Prop :=
  after.accepts ≤ before.accepts + before.size

section Spent

theorem Spent.afforded (spent : Spent count first second) : Afforded first second := by
  have := spent.accepts
  have := spent.size
  unfold Afforded
  omega

theorem Spent.moves {phases : List Phase} (spent : Spent count first second)
    (moves : Moves phases second third) (other : .accepting ∉ phases) : Spent count first third :=
  ⟨(moves.engine.accepted other).trans spent.accepts, moves.size ▸ spent.size⟩

end Spent

def spending (start : Session) : Guide where
  chooses tally := Spent tally.accepted start
  here tally := Spent tally.accepted start
  ready tally _ := Spent tally.accepted start
  tried tally _ trial session := session.accepts = start.accepts + tally.accepted ∧
    (trial.committed = true →
      0 ≤ trial.sizeAfter ∧ trial.sizeAfter + tally.accepted < start.size) ∧
    (trial.committed = false → Spent tally.accepted start session)
  ended phase session := (phase = .fixpoint ∨ phase = .interrupted) ∧
    ∃ count, Spent count start session
  failed _ := Afforded start

theorem holds_spending (host : Host) (start : Session) : (spending start).Holds host := by
  have enters : ∀ {phase data count session}, phase ≠ .accepting → Spent count start session →
      (enter phase data).Ends (fun _ => Spent count start) (fun _ => Afforded start) session := by
    intro phase data count session other spent
    have other : .accepting ∉ [phase] := by simpa using other.symm
    exact (enter_moves session phase data).imp (fun _ _ moves => spent.moves moves.1 other)
      fun _ _ failed => (spent.moves failed.1.1 other).afforded
  constructor
  case goes => exact fun _ _ => trivial
  case target => exact fun _ _ _ _ _ => trivial
  case numbers => exact fun _ _ _ _ _ _ => trivial
  case select =>
    intro index pass tally session _ spent
    exact (enters (by simp) spent).imp (fun _ after spent => ⟨fun _ => ⟨.inr rfl, _, spent⟩, fun _ => spent⟩)
      fun _ _ => id
  case unplaced => exact fun _ _ _ _ _ _ spent _ => spent.afforded
  case generate => exact fun _ _ _ _ _ => enters (by simp)
  case offers => exact fun _ _ _ _ _ _ spent _ => ⟨fun _ _ _ _ => trivial, fun _ _ => spent.afforded⟩
  case test =>
    intro tally refused candidate session _ spent
    refine (enters (by simp) spent).imp (fun _ testing spent => ?_) fun _ _ => id
    have counted := spent.accepts
    have paid := spent.size
    refine (trial_commits host candidate testing).imp ?_ fun _ after failed => ?_
    · rintro trial after ⟨⟨-, trail⟩, ends⟩
      have same : after.accepts = testing.accepts := congrArg (count _) trail
      refine ⟨by omega, fun committed => ?_, fun rejected => ⟨by omega, ?_⟩⟩
      · obtain ⟨⟨-, smaller⟩, -⟩ := ends.resolve_left (by simp [committed])
        omega
      · obtain ⟨-, project⟩ := ends.resolve_right (by simp [rejected])
        have size : after.size = testing.size := congrArg Project.size project
        omega
    · have same : after.accepts = testing.accepts := congrArg (count _) failed.1
      change after.accepts ≤ start.accepts + start.size
      omega
  case accept =>
    rintro tally refused trial session committed ⟨counted, smaller, -⟩
    have less := smaller committed
    have more : ∀ {after}, Moves [.accepting] session after → after.accepts = session.accepts + 1 := by
      intro after moves
      simp [accepts, moves.engine.trail]
    refine (accept_moves session trial).imp ?_ fun _ after failed => ?_
    · rintro _ after ⟨moves, -, fits⟩
      have counted' := more moves
      have size := moves.size
      constructor <;> simp only [Tally.accept] <;> omega
    · have counted' := more failed.1.1
      change after.accepts ≤ start.accepts + start.size
      omega
  case reject =>
    rintro tally refused trial session rejected ⟨-, -, spent⟩
    have spent : ∀ {after}, Moves [.rejecting] session after → Spent tally.accepted start after :=
      fun moves => (spent rejected).moves moves (by simp)
    refine (reject_moves session trial).imp (fun _ noted moves => ?_) fun _ _ failed =>
      (spent failed.1).afforded
    exact ⟨fun _ => spent moves.1, fun _ _ _ => enters (by simp) (spent moves.1)⟩
  case settle =>
    intro tally _ session index pass path position _ _ _ spent
    unfold Tally.settle
    split <;> exact spent
  case log =>
    exact fun _ _ _ session _ spent => (log_moves session _ _).imp
      (fun _ _ moves => spent.moves moves.1 (by simp)) fun _ _ failed =>
        (spent.moves failed.1.1 (by simp)).afforded
  case stop =>
    intro index pass tally session _ _ spent
    exact (enters (by simp) spent).imp (fun _ _ spent => ⟨.inr rfl, _, spent⟩) fun _ _ => id
  case rest => exact fun _ _ _ _ _ spent _ => spent
  case fixpoint => exact fun _ later _ _ _ spent _ _ => ⟨.inl rfl, later.accepted, spent⟩

theorem spending_zero (session : Session) : (spending session).here .zero session :=
  ⟨rfl, Nat.le_refl _⟩

/-! ### The loop over a target -/

section Loops

variable (host : Host) (index : Nat) (pass : Pass) (path : Option String)
  (position : Option (List Int)) (resume : Option Bookmark)

/-- One round at a target: nothing is left to be done, or a candidate was accepted and the pass is
asked again from there. -/
def targetBody (host : Host) (index : Nat) (pass : Pass) (path : Option String) :
    Option (List Int) × Nat → Step Session ((Option (List Int) × Nat) ⊕ Nat)
  | (position, accepted) => do
    if !(← get).hasTarget path then return .inr accepted
    match ← tryProposals host index pass path position with
    | none => return .inr accepted
    | some candidate =>
      if (← get).cancelled then return .inr (accepted + 1)
      return .inl (candidate.bookmark.position, accepted + 1)

theorem targetBody_spent (accepted : Nat) (session : Session) :
    (targetBody host index pass path (position, accepted)).Ends
      (fun next after => next.elim (fun _ => Spent 1 session after) fun _ => True)
      (fun _ _ => True) session := by
  rw [targetBody, ends_get_bind]
  split
  · trivial
  · refine ((holds_spending host session).tryProposals index pass path position trivial trivial
      (spending_zero session)).bind ?_ fun _ _ _ => trivial
    intro found after tries
    cases found with
    | none => trivial
    | some candidate =>
      rw [ends_get_bind]
      split
      · trivial
      · exact tries

theorem targetBody_runOn (accepted : Nat) (session : Session) :
    (targetBody host index pass path (position, accepted)).runOn session =
      if !session.hasTarget path then (.ok (.inr accepted), session)
      else
        match (tryProposals host index pass path position).runOn session with
        | (.error failure, after) => (.error failure, after)
        | (.ok none, after) => (.ok (.inr accepted), after)
        | (.ok (some candidate), after) =>
          if after.cancelled then (.ok (.inr (accepted + 1)), after)
          else (.ok (.inl (candidate.bookmark.position, accepted + 1)), after) := by
  simp only [targetBody, runOn_bind, runOn_get]
  split
  · rfl
  · rw [runOn_bind]
    rcases (tryProposals host index pass path position).runOn session with
      ⟨failure | _ | candidate, after⟩
    · rfl
    · rfl
    · simp only [runOn_bind, runOn_get]
      split <;> rfl

/-- The loop over a target goes round without a bound, and yet comes to an end. -/
theorem exhaustTarget_loops (accepted : Nat) (session : Session) :
    Step.Loops (targetBody host index pass path) (position, accepted) session
      (exhaustTarget host index pass path position accepted session) := by
  have ahead : ∀ here state there after,
      (targetBody host index pass path here).runOn state = (.ok (.inl there), after) →
        after.size < state.size := by
    intro here state there after ran
    exact ((ends_ok ran).mp (targetBody_spent host index pass path here.1 here.2 state)).size
  refine loops_of_unfolds (fun here => exhaustTarget host index pass path here.1 here.2)
    (fun _ state => state.size) (fun here state => ?_) ahead (position, accepted) session
  have smaller := ahead here state
  rw [targetBody_runOn] at smaller ⊢
  rw [exhaustTarget]
  by_cases there : (!state.hasTarget path) = true
  · rw [if_pos there, if_pos there]
  · rw [if_neg there] at smaller ⊢
    rw [if_neg there]
    generalize (tryProposals host index pass path here.1).runOn state = tried at smaller ⊢
    rcases tried with ⟨failure | _ | candidate, after⟩
    · rfl
    · rfl
    · dsimp only at smaller ⊢
      split
      · rfl
      · next going =>
        rw [if_neg going] at smaller
        rw [dif_pos (smaller _ _ rfl)]

end Loops

namespace Guide

/-- What is left once candidates were tried at some targets: the count is told, and if it is none and
the search is not to stop, the pass has nothing more to offer at any of them. -/
def Leaves (guide : Guide) (tally : Tally) (session : Session) (full : Prop) (index : Nat) (pass : Pass)
    (targets : List (Option String)) (count : Nat) (after : Session) : Prop :=
  ∃ later, tally.Since session count later after ∧ guide.here later after ∧
    (count = 0 → after.cancelled = false → full → ∀ path ∈ targets, session.hasTarget path = true →
      (index, pass, path) ∈ later.settled)

variable (holds : guide.Holds host) (index : Nat) (pass : Pass)

include holds

theorem Holds.exhaustTarget (path : Option String)
    (position : Option (List Int)) (goes : guide.goes session) (here : guide.here tally session) :
    Step.Ends (exhaustTarget host index pass path position 0)
      (guide.Leaves tally session (position = none) index pass [path]) guide.failed session := by
  -- only the first round can end the loop with nothing accepted
  refine Step.Loops.leaves (fun here state => guide.goes state ∧ ∃ later,
      tally.Since session here.2 later state ∧ guide.here later state ∧
      (here.2 = 0 → here.1 = position)) ?_
    (exhaustTarget_loops host index pass path position 0 session)
    ⟨goes, tally, .of_same rfl, here, fun _ => rfl⟩
  rintro ⟨place, count⟩ state ⟨goes, later, since, here, first⟩
  rw [targetBody, ends_get_bind]
  split
  · next missing =>
    refine ⟨later, since, here, fun none _ _ path member there => ?_⟩
    cases mem_singleton.mp member
    simp [hasTarget_congr path (since.project none), there] at missing
  · next there =>
    refine (holds.tryProposals index pass path place
      (holds.target later state path here (by simpa using there)) goes here).bind ?_ fun _ _ => id
    rintro (_ | candidate) after tries
    · obtain ⟨same, ⟨stop, here⟩ | here⟩ := tries
      · exact ⟨later, since.trans (.of_same same), here, fun _ going => by simp [going] at stop⟩
      · refine ⟨_, since.trans (.settle same), here, fun none _ full path member _ => ?_⟩
        cases mem_singleton.mp member
        obtain rfl : place = position := first none
        simp [Tally.settle, full]
    · have since := since.trans (.accept state after)
      rw [ends_get_bind]
      split
      · exact ⟨_, since, tries, by simp⟩
      · next going =>
        exact ⟨holds.goes after (by simpa using going), _, since, tries, by simp⟩

theorem Holds.sweepTargets (resume : Option Bookmark) (accepted : Nat)
    (targets : List (Option String)) (goes : guide.goes session) (here : guide.here tally session) :
    (sweepTargets host index pass resume accepted targets).Ends
      (fun count after => ∃ more, count = accepted + more ∧
        guide.Leaves tally session (resume = none) index pass targets more after)
      guide.failed session := by
  induction targets generalizing accepted tally session with
  | nil => exact ⟨0, rfl, tally, .of_same rfl, here, by simp⟩
  | cons path rest ih =>
    rw [sweepTargets, ends_bind, ends_lift]
    refine ⟨fun position placed => ?_, fun failure =>
      holds.unplaced tally session resume path failure goes here⟩
    cases position with
    | none =>
      refine (ih accepted goes here).imp ?_ fun _ _ => id
      rintro count after ⟨more, rfl, later, since, here, -⟩
      refine ⟨more, rfl, later, since, here, fun _ _ full => ?_⟩
      subst full
      cases placed
    | some position =>
      refine (holds.exhaustTarget index pass path position goes here).bind ?_ fun _ _ => id
      rintro count middle ⟨later, since, here, settled⟩
      rw [ends_get_bind, ends_ite]
      refine ⟨fun stop => ⟨count, rfl, later, since, here, fun _ going => by simp [stop] at going⟩,
        fun going => ?_⟩
      have going : middle.cancelled = false := Bool.eq_false_iff.mpr going
      refine (ih (accepted + count) (holds.goes middle going) here).imp ?_ fun _ _ => id
      rintro _ after ⟨more, rfl, last, since', here, settled'⟩
      refine ⟨count + more, Nat.add_assoc _ _ _, last, since.trans since', here, ?_⟩
      intro none still full other member there
      have none : count = 0 ∧ more = 0 := by omega
      rcases mem_cons.mp member with rfl | member
      · subst full
        cases placed
        exact since'.settled none.2 (settled none.1 going rfl other (by simp) there)
      · exact settled' none.2 still full other member
          ((hasTarget_congr other (since.project none.1)).trans there)

theorem Holds.sweep (resume : Option Bookmark) (goes : guide.goes session)
    (here : guide.here tally session) :
    (sweep host index pass resume).Ends
      (guide.Leaves tally session (resume = none) index pass (targets pass session.progress.project))
      guide.failed session := by
  rw [Session.sweep, ends_get_bind]
  refine (holds.sweepTargets index pass resume 0 _ goes here).bind ?_ fun _ _ => id
  rintro _ swept ⟨count, rfl, later, since, here, settled⟩
  rw [ends_get_bind]
  have few : 0 + count ≤ later.accepted := by
    have := since.accepted
    omega
  refine ((holds.log pass _ later swept few here).and (log_moves swept _ _)).bind ?_ fun _ _ => And.left
  rintro _ after ⟨here, moves, -⟩
  rw [Nat.zero_add]
  exact ⟨later, since.trans (.of_same moves.project), here, fun none going =>
    settled none (moves.cancelled.symm.trans going)⟩

end Guide

/-! ### The loop over a pass -/

section Loops

variable (host : Host) (index : Nat) (pass : Pass) (resume : Option Bookmark)

/-- One round of a pass: a sweep, which is the last one if it is a full one and accepts nothing. -/
def passBody (host : Host) (index : Nat) (pass : Pass) :
    Option Bookmark × Nat → Step Session ((Option Bookmark × Nat) ⊕ Nat)
  | (resume, total) => do
    let accepted ← sweep host index pass resume
    if (← get).cancelled || (accepted = 0 && resume.isNone) then return .inr (total + accepted)
    return .inl (none, total + accepted)

theorem sweep_spent (session : Session) :
    (sweep host index pass resume).Ends (fun count after => Spent count session after)
      (fun _ after => Afforded session after) session := by
  refine ((holds_spending host session).sweep index pass resume trivial
    (spending_zero session)).imp ?_ fun _ _ => id
  rintro count after ⟨later, since, spent, -⟩
  exact (Nat.zero_add count ▸ since.accepted) ▸ spent

/-- A round that goes on has accepted a candidate or used up the bookmark. -/
theorem passBody_spent (total : Nat) (session : Session) :
    (passBody host index pass (resume, total)).Ends
      (fun next after => next.elim
        (fun there => there.1 = none ∧ ∃ count, 0 < count + resume.toList.length ∧
          Spent count session after) fun _ => True)
      (fun _ _ => True) session := by
  rw [passBody]
  refine (sweep_spent host index pass resume session).bind ?_ fun _ _ _ => trivial
  intro accepted after spent
  rw [ends_get_bind]
  split
  · trivial
  · next going =>
    refine ⟨rfl, accepted, ?_, spent⟩
    cases resume with
    | none => simpa [Nat.pos_iff_ne_zero] using fun none => going (by simp [none])
    | some bookmark => simp

/-- The loop over a pass goes round without a bound, and yet comes to an end. -/
theorem exhaustPass_loops (total : Nat) (session : Session) :
    Step.Loops (passBody host index pass) (resume, total) session
      (exhaustPass host index pass resume total session) := by
  have ahead : ∀ here state there after,
      (passBody host index pass here).runOn state = (.ok (.inl there), after) →
        after.size + there.1.toList.length < state.size + here.1.toList.length := by
    intro here state there after ran
    obtain ⟨fresh, count, more, spent⟩ := (ends_ok ran).mp
      (passBody_spent host index pass here.1 here.2 state)
    have := spent.size
    rw [fresh, Option.toList, length_nil]
    omega
  refine loops_of_unfolds (fun here => exhaustPass host index pass here.1 here.2)
    (fun here state => state.size + here.1.toList.length) (fun here state => ?_) ahead
    (resume, total) session
  have smaller := ahead here state
  obtain ⟨resume, total⟩ := here
  rw [passBody, runOn_bind] at smaller ⊢
  rw [exhaustPass]
  generalize (sweep host index pass resume).runOn state = swept at smaller ⊢
  rcases swept with ⟨failure | accepted, after⟩
  · rfl
  · simp only [runOn_bind, runOn_get] at smaller ⊢
    split
    · rfl
    · next going =>
      rw [if_neg going] at smaller
      have := smaller (none, total + accepted) after rfl
      rw [dif_pos (by simpa using this)]
      rfl

end Loops

namespace Guide

variable (holds : guide.Holds host)

include holds

/-- A pass that was not stopped has nothing more to offer at all its targets. -/
theorem Holds.exhaustPass (index : Nat) (pass : Pass) (resume : Option Bookmark)
    (goes : guide.goes session) (here : guide.here tally session) :
    Step.Ends (exhaustPass host index pass resume 0)
      (fun total after => ∃ later, tally.Since session total later after ∧ guide.here later after ∧
        (after.cancelled = false → ∀ target ∈ targets pass after.progress.project,
          (index, pass, target) ∈ later.settled))
      guide.failed session := by
  refine Step.Loops.leaves (fun here state => guide.goes state ∧ ∃ later,
      tally.Since session here.2 later state ∧ guide.here later state) ?_
    (exhaustPass_loops host index pass resume 0 session) ⟨goes, tally, .of_same rfl, here⟩
  rintro ⟨resume, total⟩ state ⟨goes, later, since, here⟩
  refine (holds.sweep index pass resume goes here).bind ?_ fun _ _ => id
  rintro accepted after ⟨last, since', here, settled⟩
  have since := since.trans since'
  rw [ends_get_bind]
  split
  · next ends =>
    refine ⟨last, since, here, fun going target member => ?_⟩
    simp only [going, Bool.false_or, Bool.and_eq_true, decide_eq_true_eq, Option.isNone_iff_eq_none]
      at ends
    rw [since'.project ends.1] at member
    exact settled ends.1 going ends.2 target member (hasTarget_of_mem member)
  · next goes =>
    simp only [Bool.or_eq_true, not_or, Bool.not_eq_true] at goes
    exact ⟨holds.goes after goes.1, last, since, here⟩

/-- How a round through passes ends. Only the first pass of the catalog may get candidates accepted and
yet be followed by another. -/
def Rounds (guide : Guide) (tally : Tally) (passes : List (Nat × Pass)) (session : Session) :
    RoundEnd → Session → Prop
  | .interrupted, after => guide.ended .interrupted after
  | .restart, after => ∃ count later, 0 < count ∧ tally.select.Since session count later after ∧
    guide.chooses later after
  | .through, after => ∃ count later, tally.select.Since session count later after ∧
    guide.chooses later after ∧ passes ⊆ later.exhausted ∧ (after = session ∨ later.exhausted ≠ []) ∧
    ((∀ entry ∈ passes, 0 < entry.1) → count = 0)

theorem Holds.round (resume : Option Bookmark) (passes : List (Nat × Pass))
    (numbers : ∀ entry ∈ passes, guide.numbers entry.1)
    (later : ∀ entry ∈ passes.tail, 0 < entry.1) (chooses : guide.chooses tally session) :
    (round host resume passes).Ends (guide.Rounds tally passes session) guide.failed session := by
  induction passes generalizing resume tally session with
  | nil =>
    exact ⟨0, tally, ⟨rfl, fun _ => rfl, fun _ => nil_subset _, fun _ _ => id⟩, chooses,
      nil_subset _, .inl rfl, fun _ => rfl⟩
  | cons entry rest ih =>
    obtain ⟨index, pass⟩ := entry
    rw [round]
    obtain ⟨number, numbers⟩ := forall_mem_cons.mp numbers
    refine ((holds.select index pass tally session number chooses).and (enter_moves session _ _)).bind ?_
      fun _ _ => And.left
    rintro _ selected ⟨⟨stops, goes⟩, moves, -⟩
    rw [ends_get_bind, ends_ite]
    refine ⟨fun stop => stops stop, fun going => ?_⟩
    have going : selected.cancelled = false := Bool.eq_false_iff.mpr going
    refine (holds.exhaustPass index pass resume (holds.goes selected going) (goes going)).bind ?_
      fun _ _ => id
    rintro count middle ⟨now, since, here, settled⟩
    rw [ends_get_bind, ends_ite]
    constructor
    · intro stop
      exact (holds.stop index pass now middle number stop here).bind (fun _ _ => id) fun _ _ => id
    intro going
    have chooses := holds.rest now middle index pass (Bool.eq_false_iff.mpr going) here
      (settled (Bool.eq_false_iff.mpr going))
    have since : tally.select.Since session count
        { now with exhausted := (index, pass) :: now.exhausted } middle := by
      refine { since with
        project := fun none => (since.project none).trans moves.project
        exhausted := fun none => ?_ }
      exact List.Subset.trans (since.exhausted none) (subset_cons_self _ _)
    rw [ends_ite]
    refine ⟨fun again => ⟨count, _, Nat.pos_of_ne_zero again.1, since, chooses⟩, fun onward => ?_⟩
    refine (ih none numbers (fun entry member => later entry (mem_of_mem_tail member)) chooses).imp ?_
      fun _ _ => id
    intro ending after ends
    cases ending with
    | interrupted => exact ends
    | restart =>
      obtain ⟨more, last, some, since', chooses⟩ := ends
      exact ⟨count + more, last, by omega, since.trans_select since', chooses⟩
    | through =>
      obtain ⟨more, last, since', chooses, all, -, none⟩ := ends
      have none := none later
      have this : (index, pass) ∈ last.exhausted := since'.exhausted none mem_cons_self
      refine ⟨count + more, last, since.trans_select since', chooses, cons_subset.mpr ⟨this, all⟩,
        .inr (ne_nil_of_mem this), fun positive => ?_⟩
      have : 0 < index := positive _ mem_cons_self
      omega

end Guide

/-! ### The loop over the catalog -/

theorem getElem?_numbered {first place : Nat} :
    (numbered passes first)[place]? = passes[first + place]?.map (first + place, ·) := by
  simp [numbered, Function.comp_def]

/-- All passes of a round but the one that it begins with come after the first of the catalog. -/
theorem pos_of_mem_tail_numbered {first : Nat} {entry : Nat × Pass}
    (member : entry ∈ (numbered passes first).tail) : 0 < entry.1 := by
  obtain ⟨place, found⟩ := mem_iff_getElem?.mp member
  rw [getElem?_tail, getElem?_numbered, Option.map_eq_some_iff] at found
  obtain ⟨pass, -, rfl⟩ := found
  exact Nat.succ_pos _

section Loops

variable (host : Host) (resume : Option Bookmark)

/-- One round through the catalog: it is the last one if it is interrupted, or if it begins with the
first pass and goes through. -/
def roundBody (host : Host) :
    Option Bookmark × Nat → Step Session ((Option Bookmark × Nat) ⊕ Phase)
  | (resume, first) => do
    match ← round host resume (numbered (← get).engine.passes first) with
    | .interrupted => return .inr .interrupted
    | .through => if first = 0 then return .inr .fixpoint else return .inl (none, 0)
    | .restart => return .inl (none, 0)

/-- A round that goes on has accepted a candidate or was the one that began in the middle. -/
theorem roundBody_spent (first : Nat) (session : Session) : (roundBody host (resume, first)).Ends
      (fun next after => next.elim
        (fun there => there = (none, 0) ∧ ∃ count, Spent count session after ∧ (first = 0 → 0 < count))
        fun _ => True)
      (fun _ _ => True) session := by
  rw [roundBody, ends_get_bind]
  refine ((holds_spending host session).round resume _ (fun _ _ => trivial)
    (fun _ => pos_of_mem_tail_numbered)
    (spending_zero session)).bind ?_ fun _ _ _ => trivial
  intro ending after ends
  cases ending with
  | interrupted => trivial
  | restart =>
    obtain ⟨count, later, some, since, spent⟩ := ends
    exact ⟨rfl, later.accepted, spent, fun _ => since.accepted ▸ Nat.add_pos_right _ some⟩
  | through =>
    obtain ⟨count, later, since, spent, -⟩ := ends
    dsimp only
    split
    · trivial
    · next middle => exact ⟨rfl, later.accepted, spent, fun first => absurd first middle⟩

/-- The loop over the catalog goes round without a bound, and yet comes to an end. -/
theorem rounds_loops (first : Nat) (session : Session) :
    Step.Loops (roundBody host) (resume, first) session (rounds host resume first session) := by
  have ahead : ∀ here state there after,
      (roundBody host here).runOn state = (.ok (.inl there), after) →
        after.size + (if there.2 = 0 then 0 else 1) < state.size + (if here.2 = 0 then 0 else 1) := by
    intro here state there after ran
    obtain ⟨rfl, count, spent, more⟩ := (ends_ok ran).mp
      (roundBody_spent host here.1 here.2 state)
    have := spent.size
    rw [if_pos rfl]
    split
    · next first => have := more first; omega
    · omega
  refine loops_of_unfolds (fun here => rounds host here.1 here.2)
    (fun here state => state.size + (if here.2 = 0 then 0 else 1)) (fun here state => ?_) ahead
    (resume, first) session
  have smaller := ahead here state
  obtain ⟨resume, first⟩ := here
  simp only [roundBody, runOn_bind, runOn_get] at smaller ⊢
  rw [rounds]
  generalize (round host resume (numbered state.engine.passes first)).runOn state = gone at smaller ⊢
  rcases gone with ⟨failure | ending, after⟩
  · rfl
  · cases ending with
    | interrupted => rfl
    | restart =>
      have := smaller (none, 0) after rfl
      dsimp only
      rw [if_neg (by simp), dif_pos (by simpa using this)]
      rfl
    | through =>
      dsimp only at smaller ⊢
      by_cases fresh : first = 0
      · rw [if_pos ⟨rfl, fresh⟩, if_pos fresh]
        rfl
      · have := smaller (none, 0) after (by rw [if_neg fresh]; rfl)
        rw [if_neg (fun both => fresh both.2), dif_pos (by simpa using this), if_neg fresh]
        rfl

end Loops

theorem Guide.Holds.rounds (holds : guide.Holds host) (resume : Option Bookmark) (first : Nat)
    (chooses : guide.chooses .zero session) :
    Step.Ends (rounds host resume first) guide.ended guide.failed session := by
  refine Step.Loops.leaves (fun _ state => ∃ tally, guide.chooses tally state) ?_
    (rounds_loops host resume first session) ⟨.zero, chooses⟩
  rintro ⟨resume, first⟩ state ⟨tally, chooses⟩
  rw [roundBody, ends_get_bind]
  refine (holds.round resume _ (holds.numbers tally state first chooses)
    (fun _ => pos_of_mem_tail_numbered) chooses).bind ?_ fun _ _ => id
  intro ending after ends
  cases ending with
  | interrupted => exact ends
  | restart =>
    obtain ⟨_, later, -, -, chooses⟩ := ends
    exact ⟨later, chooses⟩
  | through =>
    obtain ⟨_, later, -, chooses', all, some, -⟩ := ends
    dsimp only
    split
    · next fresh =>
      subst fresh
      exact holds.fixpoint tally later state after chooses chooses' all some
    · exact ⟨later, chooses'⟩

end Session
end Whittle
