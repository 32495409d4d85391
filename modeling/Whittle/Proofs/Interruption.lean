import Whittle.Proofs.Invariant
import Whittle.Proofs.Opening
import Whittle.Proofs.Search.Checked

/-!
What becomes of a wish to stop. If it comes while the driver runs, that run of the driver is the last
one: no candidate is made or tried after it, and the one that was being tried is committed if the bug
was reproduced and taken back if not. The run is then reported as interrupted, unless that cannot be
told or kept, or the candidate cannot be taken back (`Run.perform_heeds`).
-/

namespace Whittle

open List

/-- No candidate was made or tried after some hearings. -/
def Scene.Within (older : List Hearing) (scenes : List Scene) : Prop :=
  ∀ scene ∈ scenes, scene.phase = .generatingCandidate ∨ scene.phase = .testing →
    scene.hearings <:+ older

/-- What holds of each hearing since at which there was a wish to stop. -/
def Judge.Stops (old judge : Judge) (property : Hearing → Prop) : Prop :=
  ∃ new, judge.hearings = new ++ old.hearings ∧
    ∀ hearing ∈ new, hearing.cancelled = true → property hearing

theorem Judge.Stops.imp {old judge later : Judge} {property other : Hearing → Prop}
    (stops : old.Stops judge property) (same : later.hearings = judge.hearings)
    (so : ∀ hearing, property hearing → other hearing) : old.Stops later other := by
  obtain ⟨new, hearings, only⟩ := stops
  exact ⟨new, same.trans hearings, fun hearing member stop => so hearing (only hearing member stop)⟩

namespace Standing

/-- The last candidate that was tried was heard after some hearings. It is committed if the bug was
reproduced, and if not, the project is as it was. -/
def Settles (host : Host) (hearing : Hearing) (older : List Hearing) (standing : Standing) : Prop :=
  ∃ scene, standing.scenes.find? (·.phase = .testing) = some scene ∧ scene.hearings = older ∧
    if hearing.verdict.reproduces = true then
      ∃ candidate buffers, scene.project.apply host.parsers candidate = .ok buffers ∧
        scene.project.commit buffers = (.ok (), standing.progress.project)
    else standing.progress.project = scene.project

/-- A search has stopped after a hearing: it is the last one, after others at which there was no wish
to stop, the driver has not been run again, no candidate was made or tried since, and the one that
was heard is settled. -/
def Halts (host : Host) (old judge : Judge) (hearing : Hearing) (standing : Standing) : Prop :=
  ∃ rest, judge.hearings = hearing :: rest ++ old.hearings ∧
    (∀ other ∈ rest, other.cancelled = false) ∧
    judge.invocations = old.invocations + rest.length + 1 ∧
    Scene.Within (rest ++ old.hearings) standing.scenes ∧
    standing.Settles host hearing (rest ++ old.hearings)

variable {host : Host} {old judge : Judge} {hearing : Hearing} {standing later : Standing}

/-- Other phases may begin after that, as long as the project stays. -/
theorem Halts.after {more : List Scene} (halts : standing.Halts host old judge hearing)
    (scenes : later.scenes = more ++ standing.scenes)
    (other : ∀ scene ∈ more, scene.phase ≠ .generatingCandidate ∧ scene.phase ≠ .testing)
    (project : later.progress.project = standing.progress.project) :
    later.Halts host old judge hearing := by
  obtain ⟨rest, hearings, uncancelled, invocations, within, scene, found, older, settled⟩ := halts
  refine ⟨rest, hearings, uncancelled, invocations, ?_, scene, ?_, older, project ▸ settled⟩
  · rw [Scene.Within, scenes]
    refine forall_mem_append.mpr ⟨fun scene member which => ?_, within⟩
    exact (which.elim (other scene member).1 (other scene member).2).elim
  · rw [scenes, find?_append, find?_eq_none.mpr fun scene member => ?_, Option.none_or, found]
    simpa using (other scene member).2

/-- Of all hearings since, it is the only one at which there was a wish to stop. -/
theorem Halts.stops (halts : standing.Halts host old judge hearing) :
    old.Stops judge (standing.Halts host old judge) := by
  obtain ⟨rest, hearings, uncancelled, more⟩ := id halts
  refine ⟨hearing :: rest, hearings, fun other member stop => ?_⟩
  rcases mem_cons.mp member with rfl | earlier
  · exact halts
  · simp [uncancelled other earlier] at stop

end Standing

namespace Engine

variable {host : Host} {failure cause : Failure} {session : Session} {before after : Engine}
  {untold : Value.Fault → Prop} {phases : List Phase}

/-- The candidate of a search that was heard last is not taken back: so putting the files back fails
on the disk that the driver has left. -/
def Unrestored (host : Host) (failure : Failure) (standing : Standing) (after : Engine) : Prop :=
  ∃ hearing older, after.judge.hearings = hearing :: older ∧ hearing.verdict.reproduces = false ∧
    Bench.Unrestored host after.driver hearing.disk failure
      { project := standing.progress.project, worktree := standing.worktree
        judge := after.judge, world := after.world }

theorem Unrestored.goes {standing : Standing} (lost : before.Unrestored host failure standing)
    (goes : before.Goes phases after) : after.Unrestored host failure standing := by
  obtain ⟨hearing, older, heard, rejected, failed⟩ := lost
  refine ⟨hearing, older, goes.judge ▸ heard, rejected, ?_⟩
  simpa only [Bench.Unrestored, goes.driver, goes.launches] using failed

/-- Why a search that was to stop can fail nevertheless: it cannot be logged, a snapshot cannot be
offered of what was accepted, or the candidate cannot be taken back. -/
def Excused (host : Host) (untold : Value.Fault → Prop) (failure : Failure) (after : Engine) : Prop :=
  ∃ standing, after.standing = some standing ∧
    (after.Unlogged (fun fault => untold fault ∨ standing.progress.Overlong fault) failure ∨
      after.Unkept standing.progress failure ∨ after.Unrestored host failure standing)

namespace Excused

theorem unlogged (lost : session.engine.Unlogged untold failure) :
    session.leaves.Excused host untold failure :=
  ⟨_, rfl, .inl (lost.imp fun _ => .inl)⟩

theorem unkept (lost : session.engine.Unkept session.progress failure) :
    session.leaves.Excused host untold failure :=
  ⟨_, rfl, .inr (.inl lost)⟩

theorem unrestored (lost : session.leaves.Unrestored host failure session.toStanding) :
    session.leaves.Excused host untold failure :=
  ⟨_, rfl, .inr (.inr lost)⟩

theorem isAmong (excused : after.Excused host untold failure) :
    failure.IsAmong ["FilesystemWriteError"] := by
  obtain ⟨_, -, lost | lost | ⟨_, _, -, -, lost⟩⟩ := excused
  · exact Failure.isAmong_of_none lost.untitled
  · exact Failure.isAmong_of_none lost.untitled
  · exact lost.isAmong

/-- A failure is reported as it is, or that cannot be logged. -/
theorem left (excused : session.leaves.Excused host untold cause)
    (goes : session.leaves.Goes phases after)
    (told : failure = cause ∧ (failure.title? = none → after = session.leaves) ∨
      after.Unlogged (fun _ => False) failure) : after.Excused host untold failure := by
  rcases told with ⟨rfl, same⟩ | lost
  · obtain ⟨standing, left, lost | lost | lost⟩ := excused
    · exact same lost.untitled ▸ ⟨standing, left, .inl lost⟩
    · exact same lost.untitled ▸ ⟨standing, left, .inr (.inl lost)⟩
    · exact ⟨standing, goes.standing.trans left, .inr (.inr (lost.goes goes))⟩
  · exact ⟨_, goes.standing, .inl (lost.imp (by simp))⟩

end Excused
end Engine

namespace Session

variable {host : Host} {old : Judge} {phase next : Phase} {start session before after : Session}
  {bench : Bench} {hearing : Hearing} {failure : Failure}

/-- A search heeds a wish to stop: there was none at any hearing so far, or it has stopped. -/
inductive Heeds (host : Host) (old : Judge) (session : Session) : Prop where
  | going (new : List Hearing) (goes : session.cancelled = false)
      (hearings : session.engine.judge.hearings = new ++ old.hearings)
      (uncancelled : ∀ hearing ∈ new, hearing.cancelled = false)
      (invocations : session.engine.judge.invocations = old.invocations + new.length)
      (within : Scene.Within session.engine.judge.hearings session.scenes) : Heeds host old session
  | stopping {hearing : Hearing} (stop : session.cancelled = true)
      (halts : session.toStanding.Halts host old session.engine.judge hearing) : Heeds host old session

def Tests (session : Session) : Prop :=
  session.cancelled = false ∧ ∃ scene rest, session.scenes = scene :: rest ∧
    scene.phase = .testing ∧ scene.project = session.progress.project ∧
    scene.hearings = session.engine.judge.hearings

theorem Reached.tests (reached : Reached host start phase session) (testing : phase = .testing) :
    session.Tests := by
  induction reached with
  | start => cases testing
  | act _ act ih =>
    cases act with
    | enters leads moves _ =>
      subst testing
      have goes := leads.going (.inr rfl)
      refine ⟨moves.cancelled.trans goes, _, _, moves.scenes, rfl, moves.project.symm, ?_⟩
      exact congrArg Judge.hearings moves.engine.judge.symm
    | logs moves _ =>
      obtain ⟨goes, scene, rest, scenes, is, project, hearings⟩ := ih testing
      refine ⟨moves.cancelled.trans goes, scene, rest, moves.scenes.trans scenes, is, ?_, ?_⟩
      · rw [project, moves.project]
      · rw [hearings, moves.engine.judge]
    | accepts => cases testing
    | rejects => cases testing

namespace Heeds

section

variable (heeds : before.Heeds host old)

include heeds

/-- Phases may begin, those in which candidates are made or tried only without a wish to stop. -/
theorem moves {phases : List Phase} (moves : Moves phases before after)
    (only : ∀ next ∈ phases, next = .generatingCandidate ∨ next = .testing → before.cancelled = false) :
    after.Heeds host old := by
  cases heeds with
  | going new goes hearings uncancelled invocations within =>
    have judge := moves.engine.judge
    refine .going new (moves.cancelled.trans goes) (judge ▸ hearings) uncancelled (judge ▸ invocations) ?_
    rw [judge, Scene.Within, moves.scenes]
    refine forall_mem_append.mpr ⟨fun scene member _ => ?_, within⟩
    obtain ⟨next, -, rfl⟩ := mem_map.mp member
    exact suffix_rfl
  | stopping stop halts =>
    refine .stopping (moves.cancelled.trans stop) (moves.engine.judge ▸ halts.after moves.scenes ?_
      moves.project)
    intro scene member
    obtain ⟨next, listed, rfl⟩ := mem_map.mp member
    have other : ¬ (next = .generatingCandidate ∨ next = .testing) := fun which => by
      simpa [stop] using only next listed which
    exact not_or.mp other

theorem hears (tests : before.Tests) (judge : bench.judge = before.engine.judge.hears hearing)
    (cancelled : bench.world.cancelled = hearing.cancelled)
    (settled : if hearing.verdict.reproduces = true then
        ∃ candidate buffers, before.progress.project.apply host.parsers candidate = .ok buffers ∧
          before.progress.project.commit buffers = (.ok (), bench.project)
      else bench.project = before.progress.project) :
    (before.withBench bench).Heeds host old ∧ (hearing.cancelled = true →
      (before.withBench bench).toStanding.Halts host old bench.judge hearing) := by
  obtain ⟨goes, scene, rest, scenes, is, project, heard⟩ := tests
  cases heeds with
  | stopping stop _ => simp [goes] at stop
  | going new _ hearings uncancelled invocations within =>
    have hearings' : bench.judge.hearings = hearing :: new ++ old.hearings := by
      rw [judge]
      exact congrArg (hearing :: ·) hearings
    have invocations' : bench.judge.invocations = old.invocations + new.length + 1 := by
      rw [judge]
      exact congrArg (· + 1) invocations
    have halts : (before.withBench bench).toStanding.Halts host old bench.judge hearing := by
      refine ⟨new, hearings', uncancelled, invocations', hearings ▸ within, scene, ?_,
        heard.trans hearings, project ▸ settled⟩
      change before.scenes.find? _ = _
      rw [scenes, find?_cons_of_pos (by simpa using is)]
    refine ⟨?_, fun _ => halts⟩
    cases stops : hearing.cancelled with
    | true => exact .stopping (cancelled.trans stops) halts
    | false =>
      refine .going (hearing :: new) (cancelled.trans stops) hearings' ?_ invocations' ?_
      · exact forall_mem_cons.mpr ⟨stops, uncancelled⟩
      · intro scene member which
        refine (within scene member which).trans ?_
        change _ <:+ bench.judge.hearings
        rw [hearings', hearings]
        exact suffix_cons hearing _

theorem tried {candidate : Candidate} {trial : Trial}
    (tests : before.Tests) (ended : Trial.Ended host before.bench candidate trial bench) :
    (before.withBench bench).Heeds host old := by
  cases ended with
  | unparsed => exact heeds
  | notSmaller => exact heeds
  | rejected _ _ heard not _ =>
    refine (heeds.hears tests heard.judge heard.cancelled ?_).1
    rw [if_neg (by simp [not])]
    exact heard.project
  | accepted applied _ heard reproduces committed judge world _ =>
    refine (heeds.hears tests (judge.trans heard.judge) ?_ ?_).1
    · rw [world]
      exact heard.cancelled
    · rw [if_pos reproduces]
      exact ⟨candidate, _, applied, committed⟩

end

/-- Of all hearings since, only one after which the search has stopped came with a wish to stop. -/
theorem stops (heeds : session.Heeds host old) : old.Stops session.engine.judge fun hearing =>
    session.cancelled = true ∧ session.toStanding.Halts host old session.engine.judge hearing := by
  cases heeds with
  | going new goes hearings uncancelled _ _ =>
    refine ⟨new, hearings, fun hearing member stop => ?_⟩
    simp [uncancelled hearing member] at stop
  | stopping stop halts => exact halts.stops.imp rfl fun _ halts => ⟨stop, halts⟩

end Heeds

/-- A search always heeds a wish to stop. -/
theorem Reached.heeds (reached : Reached host start phase session) (begins : start.Heeds host old) :
    session.Heeds host old := by
  induction reached with
  | start => exact begins
  | act reached act ih =>
    cases act with
    | enters leads moves _ =>
      refine ih.moves moves fun next member which => ?_
      obtain rfl := mem_singleton.mp member
      exact leads.going which
    | logs moves _ => exact ih.moves moves (by simp)
    | accepts _ ended _ moves _ => exact (ih.tried (reached.tests rfl) ended).moves moves (by simp)
    | rejects _ ended _ moves _ => exact (ih.tried (reached.tests rfl) ended).moves moves (by simp)

/-- An act that fails has heeded a wish to stop as well. -/
theorem Fails.heeds {untold : Value.Fault → Prop} (fails : Fails host untold phase before failure after)
    (heeds : before.Heeds host old) (tests : phase = .testing → before.Tests) :
    old.Stops after.engine.judge fun hearing =>
      after.toStanding.Halts host old after.engine.judge hearing ∧
        after.leaves.Excused host untold failure := by
  have lost : ∀ {goal : Prop}, after.Heeds host old → (after.cancelled = true → goal) →
      old.Stops after.engine.judge fun hearing =>
        after.toStanding.Halts host old after.engine.judge hearing ∧ goal :=
    fun heeds excused => heeds.stops.imp rfl fun _ so => ⟨so.2, excused so.1⟩
  cases fails with
  | misled going _ => exact lost heeds fun stop => by simp [going] at stop
  | unentered leads moves _ unlogged =>
    refine lost (heeds.moves moves fun next member which => ?_) fun _ => .unlogged unlogged
    obtain rfl := mem_singleton.mp member
    exact leads.going which
  | unlogged moves _ unlogged => exact lost (heeds.moves moves (by simp)) fun _ => .unlogged unlogged
  | unaccepted _ ended _ moves _ excuse =>
    exact lost ((heeds.tried (tests rfl) ended).moves moves (by simp)) fun _ =>
      excuse.elim .unlogged .unkept
  | unrejected _ ended _ moves balks =>
    refine lost ((heeds.tried (tests rfl) ended).moves moves (by simp)) fun stop => ?_
    have stop := moves.cancelled.symm.trans stop
    rcases balks with ⟨-, unlogged⟩ | ⟨-, unlogged | ⟨going, -⟩⟩
    · exact .unlogged (unlogged.imp (by simp))
    · exact .unlogged (unlogged.imp (by simp))
    · cases going.symm.trans stop
  | untried _ failed =>
    have untold : ∀ {property} {later : Judge}, later.hearings = before.engine.judge.hearings →
        old.Stops later property := fun same => heeds.stops.imp same fun _ so => by
      cases (tests rfl).1.symm.trans so.1
    cases failed with
    | unapplied => exact untold rfl
    | unwritten remains _ => exact untold (congrArg Judge.hearings remains.judge)
    | unheard _ called _ _ => exact untold ((congrArg Judge.hearings called).trans rfl)
    | unrestored heard not failed =>
      refine lost (heeds.hears (tests rfl) heard.judge heard.cancelled ?_).1 fun _ =>
        .unrestored ⟨_, _, congrArg Judge.hearings heard.judge, not, failed⟩
      rw [if_neg (by simp [not])]
      exact heard.project

theorem Finishes.of_cancelled {status : Phase} (finishes : session.Finishes status)
    (stop : session.cancelled = true) : status = .interrupted := by
  cases finishes with
  | interrupted _ => rfl
  | fixpoint goes => cases goes.symm.trans stop

theorem closed_halts {status : Phase} {judge : Judge} (stops : status = .interrupted)
    (halts : session.toStanding.Halts host old judge hearing) :
    (session.closed status).Halts host old judge hearing := by
  have scenes : (session.closed status).scenes = [session.scene status] ++ session.scenes := rfl
  refine halts.after scenes ?_ rfl
  simp [scene, stops]

/-- A search that ends after a wish to stop is interrupted. -/
theorem Concludes.heeds {result : Result} {after : Engine}
    (concludes : Concludes host start result after) (begins : start.Heeds host old) :
    old.Stops after.judge fun hearing => result.status = .interrupted ∧
      ∃ standing, after.standing = some standing ∧ standing.Halts host old after.judge hearing := by
  obtain ⟨phase, session, ended, reached, finishes, goes, rfl, -⟩ := concludes
  refine (reached.heeds begins).stops.imp (congrArg Judge.hearings goes.judge) ?_
  rintro hearing ⟨stop, halts⟩
  have status := finishes.of_cancelled stop
  exact ⟨status, _, rfl, goes.judge ▸ closed_halts status halts⟩

theorem Breaks.heeds {after : Engine} (breaks : Breaks host start failure after)
    (begins : start.Heeds host old) :
    old.Stops after.judge fun hearing => after.Excused host start.Overlong failure ∧
      ∃ standing, after.standing = some standing ∧ standing.Halts host old after.judge hearing := by
  rcases breaks with ⟨reached, finishes, judge, left, lost⟩ | ⟨reached, fails, goes, told⟩
  · refine (reached.heeds begins).stops.imp (congrArg Judge.hearings judge) ?_
    rintro hearing ⟨stop, halts⟩
    refine ⟨?_, _, left, judge ▸ closed_halts (finishes.of_cancelled stop) halts⟩
    exact ⟨_, left, lost.symm.imp (·.imp fun _ => .inr) .inl⟩
  · refine (fails.heeds (reached.heeds begins) reached.tests).imp
      (congrArg Judge.hearings goes.judge) ?_
    exact fun hearing so => ⟨so.2.left goes told, _, goes.standing, goes.judge ▸ so.1⟩

end Session

namespace Run

def Halts (host : Host) (before : Engine) (hearing : Hearing) (after : Engine) : Prop :=
  after.judge.hearings = hearing :: before.judge.hearings ∧
    after.judge.invocations = before.judge.invocations + 1 ∧ after.standing = before.standing ∨
  ∃ standing, after.standing = some standing ∧ standing.Halts host before.judge after.judge hearing

/-- Why a run that was to stop can fail nevertheless. Before its search it can only not tell that it
is interrupted, or not keep a snapshot of the project that it takes up. In its search it fails as said
for that; the numbers that it logs are those of its passes and sizes up to that of this project. -/
def Excused (run : Run) (host : Host) (engine : Engine) (failure : Failure) (after : Engine) : Prop :=
  (after.standing = engine.standing ∧ ∃ progress, run.Takes host engine progress.project ∧
    (after.Unlogged progress.Overlong failure ∨ after.Unkept progress failure)) ∨
  ∃ project, run.Takes host engine project ∧
    after.Excused host (Overlong (max engine.passes.length project.size)) failure

/-- If there was a wish to stop at a hearing of a run, it is the last one, the driver is not run
again, and no candidate is made or tried after it; one that was being tried is committed if the bug
was reproduced, and the project is as before if not. A run that ends then is interrupted, with nothing
pending. It fails only because that cannot be logged, or a snapshot not be offered, or the candidate
not be taken back; so it never fails for too many inconclusive verdicts, nor because the bug was not
reproduced. -/
theorem perform_heeds (host : Host) (run : Run) (engine : Engine) :
    (run.perform host).Ends
      (fun result after => ∃ new, after.judge.hearings = new ++ engine.judge.hearings ∧
        ∀ hearing ∈ new, hearing.cancelled = true →
          Halts host engine hearing after ∧ result.status = .interrupted ∧
            (after.standing = engine.standing ∨ ∃ standing, after.standing = some standing ∧
              standing.worktree.dirty = false))
      (fun failure after => ∃ new, after.judge.hearings = new ++ engine.judge.hearings ∧
        ∀ hearing ∈ new, hearing.cancelled = true →
          Halts host engine hearing after ∧ run.Excused host engine failure after ∧
            failure.IsAmong ["FilesystemWriteError"]) engine := by
  have begins : ∀ {progress begun}, run.Reaches host engine progress begun →
      (begun.begins progress).Heeds host engine.judge := by
    intro progress begun reaches
    obtain ⟨hearing, heard, -, going⟩ := reaches.heard
    refine .going [hearing] reaches.going ?_ (by simpa using going) ?_ (by simp [Scene.Within, Engine.begins])
    · exact congrArg Judge.hearings heard
    · exact congrArg Judge.invocations heard
  have halts : ∀ hearing after, after.judge = engine.judge.hears hearing →
      after.standing = engine.standing → Halts host engine hearing after := fun hearing after heard same =>
    .inl ⟨congrArg Judge.hearings heard, congrArg Judge.invocations heard, same⟩
  refine run.perform_reached engine ?_ ?_ ?_ ?_
  · rintro result after ⟨standing, ⟨hearing, heard, -⟩, status, -, -⟩
    refine ⟨[hearing], congrArg Judge.hearings heard, fun other member _ => ?_⟩
    obtain rfl := List.mem_singleton.mp member
    exact ⟨halts other after heard standing, status, .inl standing⟩
  · intro failure after stops
    rcases stops.unsettled with same | called | ⟨hearing, heard, excused⟩
    · exact ⟨[], congrArg Judge.hearings same, by simp⟩
    · exact ⟨[], by rw [called]; rfl, by simp⟩
    · refine ⟨[hearing], congrArg Judge.hearings heard, fun other member stop => ?_⟩
      obtain rfl := List.mem_singleton.mp member
      obtain ⟨progress, takes, lost⟩ := excused stop
      refine ⟨halts other after heard stops.standing, .inl ⟨stops.standing, progress, takes, lost⟩, ?_⟩
      exact Failure.isAmong_of_none (lost.elim (·.untitled) (·.untitled))
  · intro progress begun result after reaches concludes
    obtain ⟨new, hearings, only⟩ := concludes.heeds (begins reaches)
    refine ⟨new, hearings, fun hearing member stops => ?_⟩
    obtain ⟨status, halts⟩ := only hearing member stops
    obtain ⟨standing, left, clean, -⟩ := concludes.checked reaches.isSound rfl
    exact ⟨.inr halts, status, .inr ⟨standing, left, clean⟩⟩
  · intro progress begun failure after reaches breaks
    obtain ⟨new, hearings, only⟩ := breaks.heeds (begins reaches)
    refine ⟨new, hearings, fun hearing member stops => ?_⟩
    obtain ⟨excused, halts⟩ := only hearing member stops
    rw [Session.Overlong, Engine.begins, reaches.turns.passes] at excused
    exact ⟨.inr halts, .inr ⟨_, reaches.yields.takes, excused⟩, excused.isAmong⟩

end Run

namespace Sample

/-- An engine for the small project that logs its events. -/
def logging : Engine :=
  { engine with
    journal := some
      { base := Path.ofText "runs", directory := Path.ofText "runs/r0", streaming := false }
    world :=
      { disk :=
          { disk with
            entries := disk.entries ++ [(["work", "runs"], .dir), (["work", "runs", "r0"], .dir)] } } }

/-- A driver that does something to the disk when it is started for the second time, wishes the run to
stop, and does not reproduce the bug. -/
def halting (change : Disk → Disk) : Host :=
  { host with
    launch := fun _ _ count disk =>
      if count = 2 then { disk := change disk, start := .running true { exit := 1 } }
      else { disk, start := .running false {} } }

theorem halting_ends : ((Run.fresh root [.text "a"]).perform (halting id)).Ends
    (fun _ after => engine.judge.hearings = [] ∧
      after.judge.hearings.head?.any (fun hearing =>
        hearing.cancelled && !hearing.verdict.reproduces) = true)
    (fun _ _ => False) engine := by
  decide +kernel

/-- A run that was to stop while it tried its first candidate is interrupted. -/
theorem perform_heeds_halted : ∃ hearing result after,
    ((Run.fresh root [.text "a"]).perform (halting id)).runOn engine = (.ok result, after) ∧
      hearing ∈ after.judge.hearings ∧ hearing.cancelled = true ∧ hearing.verdict.reproduces = false ∧
      Run.Halts (halting id) engine hearing after ∧ result.status = .interrupted := by
  obtain ⟨result, after, ran, unheard, heard⟩ := halting_ends.exists_ok
  obtain ⟨hearing, last, stops⟩ := (Option.any_eq_true ..).mp heard
  obtain ⟨new, hearings, only⟩ := (ends_ok ran).mp (Run.perform_heeds _ _ _)
  rw [unheard, append_nil] at hearings
  have member := mem_of_head? last
  have stops : hearing.cancelled = true ∧ hearing.verdict.reproduces = false := by simpa using stops
  obtain ⟨halts, status, -⟩ := only hearing (hearings ▸ member) stops.1
  exact ⟨hearing, result, after, ran, member, stops.1, stops.2, halts, status⟩

/-- A driver that takes the log away as well. -/
def meddler : Host :=
  halting fun disk => { disk with entries := disk.entries.filter fun entry => entry.1[1]? ≠ some "runs" }

theorem meddler_fails : ((Run.fresh root [.text "a"]).perform meddler).Ends (fun _ _ => False)
    (fun failure after => failure.title? = none ∧
      after.judge.hearings.head?.any (fun hearing =>
        hearing.cancelled && !hearing.verdict.reproduces) = true ∧
      after.standing.any (!·.worktree.dirty) = true) logging := by
  decide +kernel

/-- A run that was to stop after a verdict, and has taken its candidate back, can fail nevertheless:
that the candidate is rejected is not logged where there is no log any more. -/
theorem perform_meddled_fails : ∃ failure after,
    ((Run.fresh root [.text "a"]).perform meddler).runOn logging = (.error failure, after) ∧
      (∃ hearing, after.judge.hearings.head? = some hearing ∧ hearing.cancelled = true ∧
        hearing.verdict.reproduces = false) ∧
      (∃ standing, after.standing = some standing ∧ standing.worktree.dirty = false) ∧
      failure.title? = none := by
  obtain ⟨failure, after, ran, untitled, heard, settled⟩ := meddler_fails.exists_error
  rw [Option.any_eq_true] at heard settled
  obtain ⟨hearing, last, stops⟩ := heard
  obtain ⟨standing, left, clean⟩ := settled
  exact ⟨failure, after, ran, ⟨hearing, last, by simpa using stops⟩,
    ⟨standing, left, by simpa using clean⟩, untitled⟩

end Sample
end Whittle
