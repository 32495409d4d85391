import Whittle.Proofs.Outcome
import Whittle.Proofs.Search.Steady

/-!
Where a search can come to, act by act. Each act leads from one phase to another and says what it
has changed (`Session.Act`); a search that goes on is always at a session that such acts lead to
(`Session.Reached`), and one that fails has failed in an act from there (`Session.Fails`), up to the
end of the search (`Engine.search_reached`). What holds of a whole search is then shown by looking at
its acts.
-/

namespace Whittle

variable {host : Host} {failure : Failure} {phase next : Phase} {start : Session}

namespace Trial

variable {before after : Bench} {candidate : Candidate} {trial : Trial}

section

variable (ended : Ended host before candidate trial after)

include ended

/-- A trial that has ended leaves nothing pending, and each file listed once. -/
theorem Ended.isSound (sound : before.IsSound) :
    after.IsSound := by
  cases ended with
  | unparsed => exact sound
  | notSmaller => exact sound
  | rejected _ _ heard _ clean => exact ⟨clean, heard.project ▸ sound.proper⟩
  | accepted applied _ _ _ committed _ _ clean =>
    obtain ⟨project, done, becomes, -⟩ :=
      Project.commit_of_suits sound.proper (Project.suits_of_apply applied)
    rw [committed] at done
    cases done
    exact ⟨clean, becomes.proper⟩

theorem Ended.project_eq (rejected : trial.committed = false) : after.project = before.project := by
  cases ended with
  | unparsed => rfl
  | notSmaller => rfl
  | rejected _ _ heard _ _ => exact heard.project
  | accepted => cases rejected

/-- A candidate that is committed has made the project as small as its trial tells. -/
theorem Ended.sizes (sound : before.IsSound)
    (committed : trial.committed = true) : (after.project.size : Int) = trial.sizeAfter ∧
      trial.sizeAfter < trial.sizeBefore ∧ trial.sizeBefore = before.project.size := by
  cases ended with
  | unparsed => cases committed
  | notSmaller => cases committed
  | rejected => cases committed
  | accepted applied smaller _ _ done _ _ _ =>
    obtain ⟨project, done', -, size, -⟩ :=
      Project.commit_of_suits sound.proper (Project.suits_of_apply applied)
    rw [done] at done'
    cases done'
    exact ⟨congrArg Nat.cast size, Int.ofNat_lt.mpr smaller, rfl⟩

end

/-- A trial fails as a reduction only if files cannot be written, or the driver does. -/
theorem Failed.admits {driver : String} (failed : Failed host driver before candidate failure after) :
    host.Admits ["FilesystemWriteError"] failure := by
  cases failed with
  | unapplied _ untitled => exact .of_none untitled
  | unwritten _ among => exact .inr among
  | unheard _ _ _ cause => exact cause
  | unrestored _ _ lost => exact .inr lost.isAmong

end Trial

namespace Session

variable {session before after : Session}

/-- A trial in a search ends or fails as trials do, and its own check does not fail. -/
theorem trial_ended (candidate : Candidate) (sound : session.bench.IsSound) :
    (trial host candidate).Ends
      (fun trial after => ∃ bench, Trial.Ended host session.bench candidate trial bench ∧
        after = session.withBench bench)
      (fun failure after => ∃ bench,
        Trial.Failed host session.engine.driver session.bench candidate failure bench ∧
          after = session.withBench bench) session := by
  rw [trial, ends_get_bind, ends_bind, onBench, ends_within]
  refine (Trial.run_ended candidate sound).imp ?_ fun failure bench failed => ⟨bench, failed, rfl⟩
  intro trial bench ended
  have clean := (ended.isSound sound).clean
  rw [ends_get_bind, ends_ite]
  refine ⟨fun dirty => ?_, fun _ => ⟨bench, ended, rfl⟩⟩
  simp [Worktree.dirty, clean] at dirty

theorem Moves.isSound {phases : List Phase} (moves : Moves phases session after)
    (sound : session.bench.IsSound) : after.bench.IsSound := by
  refine ⟨(congrArg Worktree.pending moves.worktree).trans sound.clean, ?_⟩
  change after.progress.project.files.IsProper
  rw [moves.project]
  exact sound.proper

/-! ### Acts -/

/-- Some pass makes this candidate of the accepted project. -/
def Offers (session : Session) (candidate : Candidate) : Prop :=
  ∃ (pass : Pass) (path : Option String) (index : Int) (position : Option (List Int))
    (candidates : List Candidate),
    pass.proposals session.progress.project path index position = .ok candidates ∧
      candidate ∈ candidates

/-- A search may go into a phase as long as it goes on. Candidates are made and tried only without a
wish to stop. -/
structure Leads (session : Session) (next : Phase) : Prop where
  among : next ∈ [.selectingPass, .generatingCandidate, .testing]
  going : next = .generatingCandidate ∨ next = .testing → session.cancelled = false

/-- Some number that is logged in a search from here cannot be written down: one of a pass, or one up to
the size of the project. -/
def Overlong (start : Session) : Value.Fault → Prop :=
  Whittle.Overlong (max start.engine.passes.length start.size)

/-- The acts of a search that goes on, from a phase to a phase. -/
inductive Act (host : Host) : Phase → Session → Phase → Session → Prop where
  | enters {phase next : Phase} {before after : Session} (leads : before.Leads next)
      (moves : Moves [next] before after) (same : after.progress = before.progress) :
      Act host phase before next after
  | logs {phase : Phase} {before after : Session} (moves : Moves [] before after)
      (same : after.progress = before.progress) : Act host phase before phase after
  | accepts {before after : Session} {candidate : Candidate} {trial : Trial} {bench : Bench}
      (offers : before.Offers candidate)
      (ended : Trial.Ended host before.bench candidate trial bench)
      (committed : trial.committed = true)
      (moves : Moves [.accepting] (before.withBench bench) after)
      (counted : after.progress.counters = countAccepted before.progress.counters) :
      Act host .testing before .accepting after
  | rejects {before after : Session} {candidate : Candidate} {trial : Trial} {bench : Bench}
      (offers : before.Offers candidate)
      (ended : Trial.Ended host before.bench candidate trial bench)
      (rejected : trial.committed = false)
      (moves : Moves [.rejecting] (before.withBench bench) after)
      (counted : after.progress.counters = countRejected trial before.progress.counters) :
      Act host .testing before .rejecting after

/-- The acts in which a search fails. -/
inductive Fails (host : Host) (untold : Value.Fault → Prop) :
    Phase → Session → Failure → Session → Prop where
  | misled {phase : Phase} {session : Session} {failure : Failure}
      (going : session.cancelled = false) (untitled : failure.title? = none) :
      Fails host untold phase session failure session
  | unentered {phase next : Phase} {before after : Session} {failure : Failure}
      (leads : before.Leads next) (moves : Moves [next] before after)
      (same : after.progress = before.progress) (lost : after.engine.Unlogged untold failure) :
      Fails host untold phase before failure after
  | unlogged {phase : Phase} {before after : Session} {failure : Failure}
      (moves : Moves [] before after) (same : after.progress = before.progress)
      (lost : after.engine.Unlogged untold failure) : Fails host untold phase before failure after
  | untried {before : Session} {candidate : Candidate} {bench : Bench} {failure : Failure}
      (offers : before.Offers candidate)
      (failed : Trial.Failed host before.engine.driver before.bench candidate failure bench) :
      Fails host untold .testing before failure (before.withBench bench)
  | unaccepted {before after : Session} {candidate : Candidate} {trial : Trial} {bench : Bench}
      {failure : Failure} (offers : before.Offers candidate)
      (ended : Trial.Ended host before.bench candidate trial bench)
      (committed : trial.committed = true)
      (moves : Moves [.accepting] (before.withBench bench) after)
      (counted : after.progress.counters = before.progress.counters ∨
        after.progress.counters = countAccepted before.progress.counters)
      (lost : after.engine.Unlogged untold failure ∨ after.engine.Unkept after.progress failure) :
      Fails host untold .testing before failure after
  | unrejected {before after : Session} {candidate : Candidate} {trial : Trial} {bench : Bench}
      {failure : Failure} (offers : before.Offers candidate)
      (ended : Trial.Ended host before.bench candidate trial bench)
      (rejected : trial.committed = false)
      (moves : Moves [.rejecting] (before.withBench bench) after)
      (balks : after.progress.counters = before.progress.counters ∧
          after.engine.Unlogged (fun _ => False) failure ∨
        after.progress.counters = countRejected trial before.progress.counters ∧
          Balks bench.world.cancelled failure after.engine) :
      Fails host untold .testing before failure after

/-- A session that acts lead to from where a search began, and the phase that the latest one has led to. -/
inductive Reached (host : Host) (start : Session) : Phase → Session → Prop where
  | start : Reached host start .initializing start
  | act {phase next : Phase} {before after : Session}
      (reached : Reached host start phase before) (act : Act host phase before next after) :
      Reached host start next after

def Broken (host : Host) (start : Session) (failure : Failure) (after : Session) :
    Prop :=
  ∃ phase before, Reached host start phase before ∧
    Fails host start.Overlong phase before failure after

section Reached

/-- Between the acts of a search nothing is pending, and each file is listed once. -/
theorem Reached.isSound (reached : Reached host start phase session)
    (sound : start.bench.IsSound) : session.bench.IsSound := by
  induction reached with
  | start => exact sound
  | act _ act ih =>
    cases act with
    | enters _ moves _ => exact moves.isSound ih
    | logs moves _ => exact moves.isSound ih
    | accepts _ ended _ moves _ => exact moves.isSound (ended.isSound ih)
    | rejects _ ended _ moves _ => exact moves.isSound (ended.isSound ih)

theorem Reached.passes_eq (reached : Reached host start phase session) :
    session.engine.passes = start.engine.passes := by
  induction reached with
  | start => rfl
  | act _ act ih =>
    cases act with
    | enters _ moves _ => exact moves.engine.passes.trans ih
    | logs moves _ => exact moves.engine.passes.trans ih
    | accepts _ _ _ moves _ => exact moves.engine.passes.trans ih
    | rejects _ _ _ moves _ => exact moves.engine.passes.trans ih

/-! ### The way of a search -/

/-- How a search ends: to stop, or when there is nothing more to offer. -/
inductive Finishes (session : Session) : Phase → Prop where
  | interrupted : session.cancelled = true → Finishes session .interrupted
  | fixpoint : session.cancelled = false → Finishes session .fixpoint

/-- A search is where its acts lead to, and each candidate that was accepted has made the project
smaller. -/
def Near (host : Host) (start : Session) (tally : Tally) (phase : Phase)
    (session : Session) : Prop :=
  Reached host start phase session ∧ session.size + tally.accepted ≤ start.size

def reaching (host : Host) (start : Session) : Guide where
  goes session := session.cancelled = false
  numbers index := index < start.engine.passes.length
  offered project candidate := ∀ session : Session, session.progress.project = project →
    session.Offers candidate
  chooses tally session := session.cancelled = false ∧ ∃ phase, Near host start tally phase session
  here tally session := ∃ phase, Near host start tally phase session
  ready tally _ session := session.cancelled = false ∧
    Near host start tally .generatingCandidate session
  tried tally _ trial session := ∃ before candidate bench,
    Near host start tally .testing before ∧ before.Offers candidate ∧
    Trial.Ended host before.bench candidate trial bench ∧ session = before.withBench bench
  ended status session := ∃ phase, Reached host start phase session ∧ session.Finishes status
  failed := Broken host start

theorem Near.enter_ends {tally : Tally} {data : List (String × Value)}
    (near : Near host start tally phase session) (leads : session.Leads next)
    (told : ∀ fault, Untold data fault → start.Overlong fault) :
    (enter next data).Ends
      (fun _ after => Near host start tally next after ∧ after.cancelled = session.cancelled ∧
        after.progress = session.progress)
      (Broken host start) session := by
  refine (enter_moves session next data).imp ?_ fun failure after failed =>
    ⟨_, _, near.1, .unentered leads failed.1.1 failed.1.2 (failed.2.imp told)⟩
  rintro _ after ⟨moves, same⟩
  exact ⟨⟨near.1.act (.enters leads moves same), moves.size ▸ near.2⟩, moves.cancelled, same⟩

theorem Near.select_ends {tally : Tally} {index : Nat} {pass : Pass}
    (near : Near host start tally phase session) (number : index < start.engine.passes.length) :
    (select index pass).Ends
      (fun _ after => Near host start tally .selectingPass after ∧
        after.cancelled = session.cancelled ∧ after.progress = session.progress)
      (Broken host start) session := by
  refine near.enter_ends ⟨by simp, by simp⟩ fun fault untold => ?_
  exact ⟨index, by omega, by simpa using untold⟩

theorem Near.generate_ends {tally : Tally} {pass : Pass} {path : Option String}
    (near : Near host start tally phase session) (going : session.cancelled = false) :
    (generate pass path).Ends
      (fun _ after => after.cancelled = false ∧
        Near host start tally .generatingCandidate after)
      (Broken host start) session := by
  refine (near.enter_ends ⟨by simp, fun _ => going⟩ fun fault untold => ?_).imp
    (fun _ _ ends => ⟨ends.2.1.trans going, ends.1⟩) fun _ _ => id
  simp at untold

theorem holds_reaching (sound : start.bench.IsSound) : (reaching host start).Holds host := by
  constructor
  case goes => exact fun _ => id
  case target => exact fun _ _ _ _ _ => trivial
  case numbers =>
    rintro tally session first ⟨-, phase, near⟩ entry member
    obtain ⟨place, found⟩ := List.mem_iff_getElem?.mp member
    rw [getElem?_numbered, Option.map_eq_some_iff, near.1.passes_eq] at found
    obtain ⟨pass, found, rfl⟩ := found
    exact (List.getElem?_eq_some_iff.mp found).1
  case select =>
    rintro index pass tally session number ⟨going, phase, near⟩
    refine (near.select_ends number).imp ?_ fun _ _ => id
    rintro _ after ⟨near, cancelled, -⟩
    exact ⟨by simp [cancelled.trans going], fun _ => ⟨_, near⟩⟩
  case unplaced =>
    rintro tally session resume path failure going ⟨phase, near⟩ failed
    exact ⟨_, _, near.1, .misled going (confined_positionAt resume path failure failed).title?_eq_none⟩
  case generate =>
    rintro pass path tally session going ⟨phase, near⟩
    exact near.generate_ends going
  case offers =>
    rintro tally session pass path index position ⟨going, near⟩ -
    refine ⟨fun candidates made candidate member other same => ?_, fun failure failed => ?_⟩
    · exact ⟨pass, path, index, position, candidates, same ▸ made, member⟩
    · exact ⟨_, _, near.1, .misled going (pass.confined_proposals session.progress.project path index
        position failure failed).title?_eq_none⟩
  case test =>
    rintro tally refused candidate session offers ⟨going, near⟩
    have leads : session.Leads .testing := ⟨by simp, fun _ => going⟩
    refine (near.enter_ends leads fun fault untold => (untold_origin fault untold).elim).imp ?_
      fun _ _ => id
    rintro _ testing ⟨near, -, same⟩
    have offers := offers testing (congrArg Progress.project same)
    refine (trial_ended candidate (near.1.isSound sound)).imp ?_ ?_
    · rintro trial _ ⟨bench, ended, rfl⟩
      exact ⟨testing, candidate, bench, near, offers, ended, rfl⟩
    · rintro failure _ ⟨bench, failed, rfl⟩
      exact ⟨_, _, near.1, .untried offers failed⟩
  case accept =>
    rintro tally refused trial _ committed ⟨before, candidate, bench, near, offers, ended, rfl⟩
    obtain ⟨size, smaller, before_eq⟩ := ended.sizes (near.1.isSound sound) committed
    have large : before.size + tally.accepted ≤ start.size := near.2
    have before_eq : trial.sizeBefore = before.size := before_eq
    refine (accept_moves (before.withBench bench) trial).imp ?_ ?_
    · rintro _ after ⟨moves, counted, fits⟩
      refine ⟨_, near.1.act (.accepts offers ended committed moves counted), ?_⟩
      have := moves.size
      simp only [Tally.accept]
      omega
    · rintro failure after ⟨⟨moves, counted⟩, lost⟩
      refine ⟨_, _, near.1, .unaccepted offers ended committed moves counted
        ((lost smaller size).imp_left (·.imp fun fault long => long.mono ?_))⟩
      omega
  case reject =>
    rintro tally refused trial _ rejected ⟨before, candidate, bench, near, offers, ended, rfl⟩
    refine (reject_moves (before.withBench bench) trial).imp ?_ ?_
    · rintro _ noted ⟨moves, counted⟩
      have near : Near host start tally .rejecting noted := by
        refine ⟨near.1.act (.rejects offers ended rejected moves counted), ?_⟩
        have size : noted.size = before.size :=
          moves.size.trans (congrArg Project.size (ended.project_eq rejected))
        exact size ▸ near.2
      exact ⟨fun _ => ⟨_, near⟩, fun going _ _ => near.generate_ends going⟩
    · rintro failure after ⟨moves, balks⟩
      exact ⟨_, _, near.1, .unrejected offers ended rejected moves balks⟩
  case settle =>
    rintro tally refused session index pass path position candidates - - ⟨going, near⟩
    refine ⟨_, near.1, ?_⟩
    unfold Tally.settle
    split <;> exact near.2
  case log =>
    rintro pass count tally session few ⟨phase, near⟩
    have large := near.2
    refine (log_moves session _ _).imp ?_ ?_
    · rintro _ after ⟨moves, same⟩
      exact ⟨phase, near.1.act (.logs moves same), moves.size ▸ large⟩
    · rintro failure after ⟨⟨moves, same⟩, lost⟩
      refine ⟨_, _, near.1, .unlogged moves same (lost.imp fun fault untold => ?_)⟩
      simp only [sweepData, untold_cons, untold_nil, Value.unwritten_text, false_or, or_false] at untold
      rcases untold with lost | lost
      · exact ⟨count, by omega, lost⟩
      · exact ⟨session.size, by omega, lost⟩
  case stop =>
    rintro index pass tally session number stop ⟨phase, near⟩
    refine (near.select_ends number).imp ?_ fun _ _ => id
    exact fun _ after ends => ⟨_, ends.1.1, .interrupted (ends.2.1.trans stop)⟩
  case rest => exact fun tally session index pass going here _ => ⟨going, here⟩
  case fixpoint =>
    rintro tally later session after - ⟨going, phase, near⟩ - -
    exact ⟨phase, near.1, .fixpoint going⟩

end Reached

def Concludes (host : Host) (start : Session) (result : Result) (after : Engine) : Prop :=
  ∃ phase session ended, Reached host start phase session ∧
    session.Finishes result.status ∧ session.engine.Goes [result.status] ended ∧
    after = { ended with standing := some (session.closed result.status) } ∧
    result.project = session.progress.project ∧ result.counters = session.progress.counters

/-- A search that began at a session has failed, as it ended or in an act. If it does not fail as the
act has, then it could not be logged that it fails. -/
inductive Breaks (host : Host) (start : Session) (failure : Failure) (after : Engine) :
    Prop where
  | unended {phase status : Phase} {session : Session}
      (reached : Reached host start phase session) (finishes : session.Finishes status)
      (judge : after.judge = session.engine.judge)
      (left : after.standing = some (session.closed status))
      (lost : after.Unkept session.progress failure ∨
        after.Unlogged session.progress.Overlong failure)
  | broken {phase : Phase} {phases : List Phase} {before session : Session} {cause : Failure}
      (reached : Reached host start phase before)
      (fails : Fails host start.Overlong phase before cause session)
      (goes : session.leaves.Goes phases after)
      (told : failure = cause ∧ (failure.title? = none → after = session.leaves) ∨
        after.Unlogged (fun _ => False) failure)

/-- A search gives up after too many inconclusive verdicts when a candidate was rejected and counted,
unless the driver fails so. -/
theorem Breaks.of_abort {after : Engine} {streak : Nat} {last : String}
    (breaks : Breaks host start (.abort streak last) after) :
    host.Raises (.abort streak last) ∨ ∃ before candidate trial bench session,
      Reached host start .testing before ∧ before.Offers candidate ∧
      Trial.Ended host before.bench candidate trial bench ∧ trial.committed = false ∧
      Moves [.rejecting] (before.withBench bench) session ∧
      session.progress.counters = countRejected trial before.progress.counters ∧
      after.judge = session.engine.judge ∧ after.standing = some session.toStanding := by
  have titled : (Failure.abort streak last).title? ≠ none := nofun
  rcases breaks with ⟨-, -, -, -, lost⟩ | ⟨reached, fails, goes, ⟨rfl, -⟩ | lost⟩
  · exact absurd (lost.elim (·.untitled) (·.untitled)) titled
  · cases fails with
    | misled _ untitled => exact absurd untitled titled
    | unentered _ _ _ lost => exact absurd lost.untitled titled
    | unlogged _ _ lost => exact absurd lost.untitled titled
    | untried _ failed => exact .inl (failed.admits.raises rfl (by simp))
    | unaccepted _ _ _ _ _ lost => exact absurd (lost.elim (·.untitled) (·.untitled)) titled
    | unrejected offers ended rejected moves balks =>
      rcases balks with ⟨-, lost⟩ | ⟨counted, -⟩
      · exact absurd lost.untitled titled
      · exact .inr ⟨_, _, _, _, _, reached, offers, ended, rejected, moves, counted, goes.judge,
          goes.standing⟩
  · exact absurd lost.untitled titled

end Session

namespace Engine

variable {engine : Engine} {progress : Progress}

/-- A search ends where its acts lead to, or fails in one of them. -/
theorem search_reached (proper : progress.project.files.IsProper)
    (going : engine.world.cancelled = false) :
    (search host progress).Ends (Session.Concludes host (engine.begins progress))
      (Session.Breaks host (engine.begins progress)) engine := by
  have sound : (engine.begins progress).bench.IsSound := ⟨rfl, proper⟩
  rw [search, ends_get_bind, guarded, ends_bind, ends_attempt]
  refine (searched_ends ((Session.holds_reaching sound).rounds _ _
    ⟨going, _, .start, Nat.le_refl _⟩)
    (fun failure session broken => .inr ⟨session, rfl, broken⟩) ?_ :
    Step.Ends _ (Session.Concludes host (engine.begins progress))
      (fun failure after => Session.Breaks host (engine.begins progress) failure after ∧
        failure.title? = none ∨ ∃ session, after = session.leaves ∧
          Session.Broken host (engine.begins progress) failure session) engine).imp
    (fun _ _ => id) fun failure after failed => ?_
  · rintro status session ⟨phase, reached, finishes⟩
    refine (finish_goes _ _ _ _).imp ?_ fun failure ended lost => .inl ⟨?_, ?_⟩
    · rintro result ended ⟨goes, rfl, project, counters, -⟩
      exact ⟨phase, session, ended, reached, finishes, goes, rfl, project, counters⟩
    · exact .unended reached finishes (lost.elim (·.1.judge) (·.1.judge)) rfl
        (lost.imp And.right And.right)
    · exact lost.elim (·.2.untitled) (·.2.untitled)
  dsimp only
  split
  · next title titled =>
    rcases failed with ⟨-, untitled⟩ | ⟨session, rfl, phase, before, reached, fails⟩
    · simp [titled] at untitled
    refine (fail_goes session.leaves).bind ?_ ?_
    · rintro _ after ⟨_, goes⟩
      exact .broken reached fails goes (.inl ⟨rfl, by simp [titled]⟩)
    · rintro other after ⟨_, goes, lost⟩
      exact .broken reached fails goes (.inr lost)
  · next untitled =>
    rcases failed with ⟨breaks, -⟩ | ⟨session, rfl, phase, before, reached, fails⟩
    · exact breaks
    · exact .broken reached fails (.refl _) (.inl ⟨rfl, fun _ => rfl⟩)

end Engine
end Whittle
