import Whittle.Proofs.Archive.Load
import Whittle.Proofs.Invariant
import Whittle.Proofs.Opening
import Whittle.Proofs.Parsed

/-!
What a run counts. Each trial of a search is accepted or rejected; a rejected candidate may not have
been parsed, or its verdict may have been inconclusive, and every other one was given to the driver
once (`Session.Reached.covered`). An accepted candidate makes the project smaller by a byte at least,
so the candidates accepted so far and the size never come to more than the size at first
(`Progress.isLasting_isFair`). Snapshots keep the counters, so this goes on from run to run
(`Run.Succession`).
-/

namespace Whittle

open List

variable {trial : Trial} {phases : List Phase} {property : Progress → Prop}

namespace Project

variable {parsers : Parsers} {first project : Project} {count : Nat}

/-- A project has come of another by so many commits, each of which made it smaller. -/
inductive Commits (parsers : Parsers) (first : Project) : Nat → Project → Prop where
  | none : Commits parsers first 0 first
  | more {count : Nat} {project changed : Project} {candidate : Candidate} {buffers : Buffers}
      (earlier : Commits parsers first count project)
      (applied : project.apply parsers candidate = .ok buffers)
      (committed : project.commit buffers = (.ok (), changed))
      (smaller : changed.size < project.size) : Commits parsers first (count + 1) changed

theorem Commits.size_le (commits : Commits parsers first count project) :
    project.size + count ≤ first.size := by
  induction commits with
  | none => exact Nat.le_refl _
  | more _ _ _ smaller ih => omega

end Project

/-- The candidates accepted so far and the size come to no more than the size at first. -/
def Progress.IsFair (progress : Progress) : Prop :=
  progress.counters.accepted + progress.project.size ≤ progress.counters.initialSize

/-- Something goes on to hold of a progress when a candidate was committed, whether or not that is
counted yet, and when one was rejected. Each file is always listed once. -/
structure Progress.IsLasting (property : Progress → Prop) : Prop where
  shrinks : ∀ {before after : Progress}, property before → after.project.files.IsProper →
    after.project.size ≤ before.project.size → after.counters = before.counters → property after
  accepts : ∀ {before after : Progress}, property before → after.project.files.IsProper →
    after.project.size < before.project.size →
    after.counters = Session.countAccepted before.counters → property after
  rejects : ∀ {before after : Progress} (trial : Trial), property before →
    after.project.files.IsProper → after.project.size = before.project.size →
    after.counters = Session.countRejected trial before.counters → property after

theorem Progress.isLasting_isFair : IsLasting IsFair where
  shrinks fair _ size counted := by
    simp only [IsFair, counted] at fair ⊢
    omega
  accepts fair _ size counted := by
    simp only [IsFair, counted, Session.countAccepted] at fair ⊢
    omega
  rejects trial fair _ size counted := by
    simp only [IsFair, counted, Session.countRejected] at fair ⊢
    omega

theorem Progress.IsLasting.proper {property : Progress → Prop} (lasting : IsLasting property) :
    IsLasting fun progress => progress.project.files.IsProper ∧ property progress where
  shrinks so proper size counted := ⟨proper, lasting.shrinks so.2 proper size counted⟩
  accepts so proper size counted := ⟨proper, lasting.accepts so.2 proper size counted⟩
  rejects trial so proper size counted := ⟨proper, lasting.rejects trial so.2 proper size counted⟩

/-- Where a search has stood: at its end and at its scenes. -/
def Standing.states (standing : Standing) : List Progress :=
  standing.progress :: standing.scenes.map Scene.progress

/-- How many candidates were accepted and how many rejected, and of these how many could not be parsed
and how many had an inconclusive verdict. -/
structure Ledger where
  accepted : Nat := 0
  rejected : Nat := 0
  unparsed : Nat := 0
  inconclusive : Nat := 0

/-- A ledger accounts for what happened from one moment of a search to another: the counters have gone
up by what it says, the driver was run once for each candidate that could be parsed, and reproduced
the bug on those that were accepted, which were all committed. -/
structure Ledger.Covers (ledger : Ledger) (parsers : Parsers) (first : Progress) (old : Judge)
    (last : Progress) (judge : Judge) : Prop where
  accepted : last.counters.accepted = first.counters.accepted + ledger.accepted
  rejected : last.counters.rejected = first.counters.rejected + ledger.rejected
  unparsed : last.counters.parseFailures = first.counters.parseFailures + ledger.unparsed
  inconclusive : last.counters.inconclusive = first.counters.inconclusive + ledger.inconclusive
  within : ledger.unparsed + ledger.inconclusive ≤ ledger.rejected
  invocations : judge.invocations + ledger.unparsed =
    old.invocations + ledger.accepted + ledger.rejected
  hearings : ∃ heard, judge.hearings = heard ++ old.hearings ∧
    heard.countP (·.verdict.reproduces) = ledger.accepted ∧
    heard.countP (·.verdict.isInconclusive) = ledger.inconclusive
  commits : first.project.Commits parsers ledger.accepted last.project

namespace Trial

variable {host : Host} {before after : Bench} {candidate : Candidate}

/-- A committed candidate was given to the driver once, and the bug was reproduced. -/
theorem Ended.exists_commit (ended : Ended host before candidate trial after) (sound : before.IsSound)
    (committed : trial.committed = true) : ∃ buffers hearing,
      before.project.apply host.parsers candidate = .ok buffers ∧
      before.project.commit buffers = (.ok (), after.project) ∧
      after.project.size < before.project.size ∧ after.judge = before.judge.hears hearing ∧
      hearing.verdict.reproduces = true := by
  obtain ⟨size, smaller, was⟩ := ended.sizes sound committed
  cases ended with
  | unparsed => cases committed
  | notSmaller => cases committed
  | rejected => cases committed
  | accepted applied _ heard reproduces done judge _ _ =>
    exact ⟨_, _, applied, done, by omega, judge.trans heard.judge, reproduces⟩

theorem Failed.project_eq {driver : String} {failure : Failure}
    (failed : Failed host driver before candidate failure after) : after.project = before.project := by
  cases failed with
  | unapplied => rfl
  | unwritten remains _ => exact remains.project
  | unheard project _ _ _ => exact project
  | unrestored heard _ _ => exact heard.project

/-- A rejected candidate could not be parsed, or was given to the driver once. One that would not make
the project smaller is not offered. -/
theorem Ended.rejection (ended : Ended host before candidate trial after)
    (rejected : trial.committed = false)
    (smaller : ∀ buffers, before.project.apply host.parsers candidate = .ok buffers →
      buffers.size < before.project.size) :
    trial.parseFailed = true ∧ trial.verdict = none ∧ after.judge = before.judge ∨
      ∃ hearing, trial.parseFailed = false ∧ trial.verdict = some hearing.verdict ∧
        after.judge = before.judge.hears hearing ∧ hearing.verdict.reproduces = false := by
  cases ended with
  | unparsed => exact .inl ⟨rfl, rfl, rfl⟩
  | notSmaller applied larger => exact absurd (smaller _ applied) (Nat.not_lt_of_le larger)
  | rejected _ _ heard not _ => exact .inr ⟨_, rfl, rfl, heard.judge, not⟩
  | accepted => cases rejected

end Trial

namespace Session

variable {host : Host} {phase : Phase} {start session before after : Session}
  {failure : Failure} {candidate : Candidate} {bench : Bench}

theorem Offers.smaller {buffers : Project.Buffers} (offers : session.Offers candidate)
    (proper : session.progress.project.files.IsProper)
    (parsed : session.progress.project.IsParsed)
    (applied : session.progress.project.apply host.parsers candidate = .ok buffers) :
    buffers.size < session.size := by
  obtain ⟨pass, path, index, position, candidates, made, member⟩ := offers
  rw [Candidate.size_of_apply proper applied]
  exact (pass.reduces_of_mem proper parsed made member).smaller

/-! ### Ledgers -/

/-- A ledger accounts for a search up to now. -/
def Covered (host : Host) (start session : Session) : Prop :=
  ∃ ledger : Ledger, ledger.Covers host.parsers start.progress start.engine.judge session.progress
    session.engine.judge

theorem Covered.moves (covered : Covered host start session)
    (moves : Moves phases session after) (same : after.progress = session.progress) :
    Covered host start after := by
  obtain ⟨ledger, covers⟩ := covered
  exact ⟨ledger, by rw [same, moves.engine.judge]; exact covers⟩

theorem Covered.accepts (covered : Covered host start before) (sound : before.bench.IsSound)
    (ended : Trial.Ended host before.bench candidate trial bench) (committed : trial.committed = true)
    (moves : Moves [.accepting] (before.withBench bench) after)
    (counted : after.progress.counters = countAccepted before.progress.counters) :
    Covered host start after := by
  obtain ⟨ledger, covers⟩ := covered
  obtain ⟨heard, hearings, reproduced, doubted⟩ := covers.hearings
  obtain ⟨buffers, hearing, applied, done, smaller, judge, reproduces⟩ :=
    ended.exists_commit sound committed
  have judge : after.engine.judge = before.engine.judge.hears hearing := moves.engine.judge.trans judge
  refine ⟨{ ledger with accepted := ledger.accepted + 1 }, ?_, ?_, ?_, ?_, covers.within, ?_, ?_, ?_⟩
  · have := covers.accepted
    rw [counted]
    simp only [countAccepted]
    omega
  · exact counted ▸ covers.rejected
  · exact counted ▸ covers.unparsed
  · exact counted ▸ covers.inconclusive
  · have := covers.invocations
    rw [judge]
    simp only [Judge.hears, Judge.called, Judge.count]
    omega
  · refine ⟨hearing :: heard, ?_, ?_, ?_⟩
    · rw [judge]
      exact congrArg (hearing :: ·) hearings
    · rw [countP_cons_of_pos (by exact reproduces), reproduced]
    · rw [countP_cons_of_neg (by simp [Verdict.isInconclusive_of_reproduces reproduces]), doubted]
  · rw [moves.project]
    exact covers.commits.more applied done smaller

theorem Covered.rejects (covered : Covered host start before)
    (smaller : ∀ buffers, before.progress.project.apply host.parsers candidate = .ok buffers →
      buffers.size < before.size)
    (ended : Trial.Ended host before.bench candidate trial bench) (rejected : trial.committed = false)
    (moves : Moves [.rejecting] (before.withBench bench) after)
    (counted : after.progress.counters = countRejected trial before.progress.counters) :
    Covered host start after := by
  obtain ⟨ledger, covers⟩ := covered
  obtain ⟨heard, hearings, reproduced, doubted⟩ := covers.hearings
  have project : after.progress.project = before.progress.project :=
    moves.project.trans (ended.project_eq rejected)
  have within := covers.within
  have invoked := covers.invocations
  have rejections := covers.rejected
  have failures := covers.unparsed
  have doubts := covers.inconclusive
  rcases ended.rejection rejected smaller with ⟨failed, none, judge⟩ | ⟨hearing, read, told, judge, not⟩
  · have judge : after.engine.judge = before.engine.judge := moves.engine.judge.trans judge
    refine ⟨{ ledger with rejected := ledger.rejected + 1, unparsed := ledger.unparsed + 1 },
      counted ▸ covers.accepted, ?_, ?_, ?_, by dsimp only; omega, ?_, ?_, project ▸ covers.commits⟩
    all_goals simp only [counted, countRejected, failed, none, judge, Option.any_none, if_true,
      Bool.false_eq_true, if_false]
    · omega
    · omega
    · omega
    · omega
    · exact ⟨heard, hearings, reproduced, doubted⟩
  · have judge : after.engine.judge = before.engine.judge.hears hearing :=
      moves.engine.judge.trans judge
    have listed : after.engine.judge.hearings = hearing :: heard ++ start.engine.judge.hearings := by
      rw [judge]
      exact congrArg (hearing :: ·) hearings
    have reproduced : (hearing :: heard).countP (·.verdict.reproduces) = ledger.accepted := by
      rw [countP_cons_of_neg (by simp [not]), reproduced]
    have invoked : after.engine.judge.invocations + ledger.unparsed =
        start.engine.judge.invocations + ledger.accepted + (ledger.rejected + 1) := by
      rw [judge]
      simp only [Judge.hears, Judge.called, Judge.count]
      omega
    refine ⟨{ ledger with
      rejected := ledger.rejected + 1
      inconclusive := ledger.inconclusive + if hearing.verdict.isInconclusive then 1 else 0 },
      counted ▸ covers.accepted, ?_, ?_, ?_, ?_, invoked,
      ⟨_, listed, reproduced, by rw [countP_cons, doubted]⟩, project ▸ covers.commits⟩
    all_goals simp only [counted, countRejected, read, told, Option.any_some, Bool.false_eq_true,
      if_false]
    · omega
    · omega
    · split <;> omega
    · split <;> omega

section Parsed

variable (makes : host.parsers.MakeTrees) (sound : start.bench.IsSound)
  (parsed : start.progress.project.IsParsed)

include makes sound parsed

/-- A search keeps the trees of its project well formed. -/
theorem Reached.isParsed (reached : Reached host start phase session) :
    session.progress.project.IsParsed := by
  induction reached with
  | start => exact parsed
  | act reached act ih =>
    cases act with
    | enters _ moves _ => exact moves.project ▸ ih
    | logs moves _ => exact moves.project ▸ ih
    | accepts _ ended committed moves _ =>
      obtain ⟨_, _, applied, done, -⟩ := ended.exists_commit (reached.isSound sound) committed
      rw [moves.project]
      exact Eq.subst (motive := Project.IsParsed) (congrArg Prod.snd done) (ih.commit makes applied)
    | rejects _ ended rejected moves _ =>
      rw [moves.project]
      exact Eq.subst (motive := Project.IsParsed) (ended.project_eq rejected).symm ih

theorem Reached.covered (reached : Reached host start phase session) :
    Covered host start session := by
  induction reached with
  | start => exact ⟨{}, by simp, by simp, by simp, by simp, by simp, rfl, ⟨[], rfl, rfl, rfl⟩, .none⟩
  | act reached act ih =>
    have sounds := reached.isSound sound
    cases act with
    | enters _ moves same => exact ih.moves moves same
    | logs moves same => exact ih.moves moves same
    | accepts _ ended committed moves counted => exact ih.accepts sounds ended committed moves counted
    | rejects offers ended rejected moves counted =>
      refine ih.rejects (fun buffers => ?_) ended rejected moves counted
      exact offers.smaller sounds.proper (reached.isParsed makes sound parsed)

theorem Breaks.covered {after : Engine} {streak : Nat} {last : String}
    (breaks : Breaks host start (.abort streak last) after) :
    host.Raises (.abort streak last) ∨ ∃ session : Session, after.standing = some session.toStanding ∧
      after.judge = session.engine.judge ∧ Covered host start session := by
  refine breaks.of_abort.imp_right ?_
  rintro ⟨before, _, _, _, _, reached, offers, ended, rejected, moves, counted, judge, left⟩
  refine ⟨_, left, judge, (reached.covered makes sound parsed).rejects (fun buffers => ?_) ended rejected
    moves counted⟩
  exact offers.smaller (reached.isSound sound).proper (reached.isParsed makes sound parsed)

end Parsed

/-! ### What lasts -/

/-- Something holds of a search wherever it has stood. -/
def Always (property : Progress → Prop) (session : Session) : Prop :=
  ∀ progress ∈ session.toStanding.states, property progress

section Always

section

variable (always : session.Always property)

include always

theorem Always.now : property session.progress :=
  always _ mem_cons_self

theorem Always.closed (status : Phase) :
    ∀ progress ∈ (session.closed status).states, property progress := by
  intro progress member
  rcases mem_cons.mp member with rfl | scene
  · exact always.now
  · rcases mem_cons.mp scene with rfl | old
    · exact always.now
    · exact always progress (mem_cons_of_mem _ old)

theorem Always.moves
    (moves : Moves phases session after) (now : property after.progress) : after.Always property := by
  intro progress member
  rcases mem_cons.mp member with rfl | scene
  · exact now
  · rw [moves.scenes, map_append, map_map] at scene
    rcases mem_append.mp scene with here | old
    · obtain ⟨phase, -, rfl⟩ := mem_map.mp here
      exact always.now
    · exact always progress (mem_cons_of_mem _ old)

end

variable (lasting : Progress.IsLasting property)

include lasting

theorem Always.withBench (always : session.Always property) (proper : bench.project.files.IsProper)
    (size : bench.project.size ≤ session.size) : (session.withBench bench).Always property := by
  intro progress member
  rcases mem_cons.mp member with rfl | scene
  · exact lasting.shrinks always.now proper size rfl
  · exact always progress (mem_cons_of_mem _ scene)

theorem Always.accepts (always : before.Always property) (sound : before.bench.IsSound)
    (ended : Trial.Ended host before.bench candidate trial bench) (committed : trial.committed = true)
    (moves : Moves [.accepting] (before.withBench bench) after)
    (counted : after.progress.counters = before.progress.counters ∨
      after.progress.counters = countAccepted before.progress.counters) : after.Always property := by
  obtain ⟨_, _, -, -, smaller, -⟩ := ended.exists_commit sound committed
  have sound := ended.isSound sound
  refine (always.withBench lasting sound.proper (Nat.le_of_lt smaller)).moves moves ?_
  have smaller : after.progress.project.size < before.progress.project.size := by
    rw [moves.project]
    exact smaller
  have proper := (moves.isSound sound).proper
  rcases counted with counted | counted
  · exact lasting.shrinks always.now proper (Nat.le_of_lt smaller) counted
  · exact lasting.accepts always.now proper smaller counted

theorem Always.rejects (always : before.Always property) (sound : before.bench.IsSound)
    (ended : Trial.Ended host before.bench candidate trial bench) (rejected : trial.committed = false)
    (moves : Moves [.rejecting] (before.withBench bench) after)
    (counted : after.progress.counters = before.progress.counters ∨
      after.progress.counters = countRejected trial before.progress.counters) :
    after.Always property := by
  have same : bench.project = before.progress.project := ended.project_eq rejected
  have size := congrArg Project.size (moves.project.trans same)
  have sound := ended.isSound sound
  refine (always.withBench lasting sound.proper (Nat.le_of_eq (congrArg Project.size same))).moves moves ?_
  have proper := (moves.isSound sound).proper
  rcases counted with counted | counted
  · exact lasting.shrinks always.now proper (Nat.le_of_eq size) counted
  · exact lasting.rejects trial always.now proper size counted

/-- What lasts and holds where a search begins holds throughout. -/
theorem Reached.always (sound : start.bench.IsSound) (always : start.Always property)
    (reached : Reached host start phase session) : session.Always property := by
  induction reached with
  | start => exact always
  | act reached act ih =>
    cases act with
    | enters _ moves same => exact ih.moves moves (same ▸ ih.now)
    | logs moves same => exact ih.moves moves (same ▸ ih.now)
    | accepts _ ended committed moves counted =>
      exact ih.accepts lasting (reached.isSound sound) ended committed moves (.inr counted)
    | rejects _ ended rejected moves counted =>
      exact ih.rejects lasting (reached.isSound sound) ended rejected moves (.inr counted)

theorem Fails.always (fails : Fails host untold phase before failure after) (sound : before.bench.IsSound)
    (always : before.Always property) : after.Always property := by
  cases fails with
  | misled => exact always
  | unentered _ moves same _ => exact always.moves moves (same ▸ always.now)
  | unlogged moves same _ => exact always.moves moves (same ▸ always.now)
  | untried _ failed =>
    exact always.withBench lasting (failed.project_eq ▸ sound.proper)
      (Nat.le_of_eq (congrArg Project.size failed.project_eq))
  | unaccepted _ ended committed moves counted _ =>
    exact always.accepts lasting sound ended committed moves counted
  | unrejected _ ended rejected moves balks =>
    exact always.rejects lasting sound ended rejected moves (balks.imp And.left And.left)

theorem Concludes.always {result : Result} {after : Engine}
    (concludes : Concludes host start result after) (sound : start.bench.IsSound)
    (always : start.Always property) :
    ∃ standing, after.standing = some standing ∧ result.counters = standing.progress.counters ∧
      ∀ progress ∈ standing.states, property progress := by
  obtain ⟨phase, session, ended, reached, -, -, rfl, -, counters⟩ := concludes
  exact ⟨_, rfl, counters, (reached.always lasting sound always).closed _⟩

theorem Breaks.always {after : Engine} (breaks : Breaks host start failure after)
    (sound : start.bench.IsSound) (always : start.Always property) :
    ∃ standing, after.standing = some standing ∧ ∀ progress ∈ standing.states, property progress := by
  rcases breaks with ⟨reached, -, -, left, -⟩ | ⟨reached, fails, goes, -⟩
  · exact ⟨_, left, (reached.always lasting sound always).closed _⟩
  · exact ⟨_, goes.standing,
      fails.always lasting (reached.isSound sound) (reached.always lasting sound always)⟩

end Always

end Session

/-! ### Runs -/

namespace Project

theorem size_eq (project : Project) :
    project.size = Bytes.total (project.contents.map fun entry => entry.2.length) := by
  rw [size, contents, map_map]
  rfl

theorem size_eq_of_contents {project other : Project} (proper : project.contents.IsProper)
    (proper' : other.contents.IsProper)
    (same : ∀ name, project.contents.get? name = other.contents.get? name) :
    project.size = other.size := by
  rw [size_eq, size_eq]
  exact List.Perm.foldr_eq ((Listing.perm_of_get? proper proper' same).map _) 0

end Project

namespace Run

variable {host : Host} {engine : Engine} {run : Run} {progress : Progress}

/-- Where a search begins the trees are well formed. -/
theorem Yields.isParsed (yields : run.Yields host engine progress) (makes : host.parsers.MakeTrees) :
    progress.project.IsParsed := by
  cases yields with
  | fresh _ loaded =>
    obtain ⟨_, -, made⟩ := bind_eq_ok_iff.mp loaded
    exact Project.isParsed_of_ofContents makes made
  | resumed _ made _ => exact Project.isParsed_of_ofContents makes (Engine.of_projectOf made)

/-- From a run's coming to its search up to some progress, a ledger accounts for what was counted, and
each accepted candidate has taken a byte at least. -/
def Accounts (run : Run) (host : Host) (engine : Engine) (last : Progress) (judge : Judge) : Prop :=
  ∃ first begun ledger, run.Reaches host engine first begun ∧
    Ledger.Covers ledger host.parsers first begun.judge last judge ∧
    last.project.size + ledger.accepted ≤ first.project.size

/-- What a snapshot of a run may have been taken of: where its search has stood; or, if it was
interrupted before, what it had come to, with nothing counted. -/
def Stood (result : Except Failure Result) (after : Engine) (progress : Progress) : Prop :=
  (∃ standing, after.standing = some standing ∧ progress ∈ standing.states) ∨
    after.standing = none ∧ ∃ told, result = .ok told ∧ progress.project = told.project ∧
      progress.counters = told.counters

/-- Runs, by how they end, of which the first begins anew and each other one goes on from a snapshot
that is just what one before it has stood at. -/
inductive Succession : Except Failure Result → Engine → Prop where
  | fresh {host : Host} {engine after : Engine} {root : Path} {files : List Value}
      {result : Except Failure Result} (idle : engine.standing = none)
      (ran : ((fresh root files).perform host).runOn engine = (result, after)) :
      Succession result after
  | resumed {host : Host} {engine earlier after : Engine} {told result : Except Failure Result}
      {progress : Progress} {point : Checkpoint} {archive : Archive} {id : Int}
      (before : Succession told earlier) (stood : Stood told earlier progress)
      (idle : engine.standing = none)
      (loaded : (resumed.begun engine).archive.resume (resumed.begun engine).world.disk =
        .ok (point, archive))
      (genuine : point.Restores id progress)
      (ran : (resumed.perform host).runOn engine = (result, after)) : Succession result after

/-- A run has ended fair wherever its search has stood; without a search it has counted nothing. Each
file is listed once. -/
def Settles (result : Except Failure Result) (after : Engine) : Prop :=
  (∀ standing, after.standing = some standing → ∀ progress ∈ standing.states,
      progress.project.files.IsProper ∧ progress.IsFair) ∧
    (after.standing = none → ∀ told, result = .ok told → told.project.files.IsProper ∧
      told.counters.accepted = 0 ∧ told.counters.initialSize = 0)

/-- What lasts and holds where the search of a run begins holds wherever it has stood. A run that
ends without a search was interrupted. -/
theorem perform_always (lasting : Progress.IsLasting property) (idle : engine.standing = none)
    (always : ∀ progress, run.Yields host engine progress → property progress) :
    (run.perform host).Ends
      (fun result after => run.Ceases host engine result after ∧ after.standing = none ∨
        ∃ standing, after.standing = some standing ∧ result.counters = standing.progress.counters ∧
          ∀ progress ∈ standing.states, progress.project.files.IsProper ∧ property progress)
      (fun _ after => ∀ standing, after.standing = some standing →
        ∀ progress ∈ standing.states, progress.project.files.IsProper ∧ property progress) engine := by
  have begins : ∀ {progress begun}, run.Reaches host engine progress begun →
      (begun.begins progress).bench.IsSound ∧ (begun.begins progress).Always fun progress =>
        progress.project.files.IsProper ∧ property progress := by
    intro progress begun reaches
    refine ⟨reaches.isSound, fun other member => ?_⟩
    rw [mem_singleton.mp member]
    exact ⟨reaches.yields.isProper, always progress reaches.yields⟩
  refine run.perform_reached engine ?_ ?_ ?_ ?_
  · exact fun result after ceases => .inl ⟨ceases, ceases.standing.trans idle⟩
  · intro failure after stops standing is
    cases is.symm.trans (stops.standing.trans idle)
  · exact fun progress begun result after reaches concludes =>
      .inr (concludes.always lasting.proper (begins reaches).1 (begins reaches).2)
  · intro progress begun failure after reaches breaks standing is
    obtain ⟨_, left, always⟩ := breaks.always lasting.proper (begins reaches).1 (begins reaches).2
    cases left.symm.trans is
    exact always

theorem perform_settles (idle : engine.standing = none)
    (fair : ∀ progress, run.Yields host engine progress → progress.IsFair) :
    (run.perform host).Ends (fun result => Settles (.ok result)) (fun failure => Settles (.error failure))
      engine := by
  refine (perform_always Progress.isLasting_isFair idle fair).imp ?_ fun _ _ always =>
    ⟨always, fun _ _ => nofun⟩
  rintro result after (⟨ceases, none⟩ | ⟨standing, left, -, always⟩)
  · obtain ⟨now, counters⟩ := ceases.counted
    refine ⟨fun standing is => (by cases is.symm.trans none), ?_⟩
    rintro - told ⟨⟩
    rw [counters]
    exact ⟨ceases.takes.isProper, rfl, rfl⟩
  · refine ⟨fun other is => ?_, fun none => (by cases left.symm.trans none)⟩
    cases left.symm.trans is
    exact always

section Restored

variable {point : Checkpoint} {archive : Archive} {id : Int} {was : Progress}
  (loaded : (Run.resumed.begun engine).archive.resume (Run.resumed.begun engine).world.disk =
    .ok (point, archive))
  (genuine : point.Restores id was) (proper : Listing.IsProper was.project.files)

include loaded genuine proper

theorem Takes.size_eq {project : Project} (takes : Run.resumed.Takes host engine project) :
    project.size = was.project.size := by
  cases takes with
  | resumed loaded' made =>
    cases loaded.symm.trans loaded'
    obtain ⟨contents, -⟩ := Project.contents_of_ofContents (Engine.of_projectOf made)
    refine Project.size_eq_of_contents (contents ▸ genuine.proper) ?_ fun name => ?_
    · rwa [Listing.IsProper, Project.names_contents]
    · rw [contents, genuine.contents]

/-- It goes on from what the snapshot counted; the size at first is the one now if none is told. -/
theorem Yields.agrees (yields : Run.resumed.Yields host engine progress) :
    progress.counters.Agrees { was.counters with
      initialSize := if was.counters.initialSize = 0 then ↑was.project.size
        else was.counters.initialSize } := by
  have size := yields.takes.size_eq loaded genuine proper
  cases yields with
  | @resumed _ _ _ _ counters now loaded' made counted =>
    cases loaded.symm.trans loaded'
    obtain ⟨again, counted', agrees⟩ := genuine.counters now
    cases counted.symm.trans counted'
    rw [← size, ← agrees.initialSize]
    split
    · exact ⟨agrees.accepted, agrees.rejected, agrees.inconclusive, agrees.parseFailures, rfl⟩
    · exact { agrees with initialSize := rfl }

theorem Yields.isFair (yields : Run.resumed.Yields host engine progress)
    (fair : was.IsFair ∨ was.counters.accepted = 0 ∧ was.counters.initialSize = 0) :
    progress.IsFair := by
  have size := yields.takes.size_eq loaded genuine proper
  have agrees := yields.agrees loaded genuine proper
  have accepted : progress.counters.accepted = was.counters.accepted := agrees.accepted
  simp only [Progress.IsFair, agrees.initialSize] at fair ⊢
  split <;> omega

end Restored

theorem Succession.settles {result : Except Failure Result} {after : Engine}
    (succession : Succession result after) : Settles result after := by
  have ended : ∀ {host run engine result after},
      (Run.perform host run).Ends (fun result => Settles (.ok result))
        (fun failure => Settles (.error failure)) engine →
      (Run.perform host run).runOn engine = (result, after) → Settles result after := by
    intro host run engine result after ends ran
    rw [Step.Ends, ran] at ends
    cases result <;> exact ends
  induction succession with
  | fresh idle ran =>
    refine ended (perform_settles idle fun progress yields => ?_) ran
    cases yields
    simp [Progress.IsFair]
  | resumed before stood idle loaded genuine ran ih =>
    refine ended (perform_settles idle fun progress yields => ?_) ran
    rcases stood with ⟨standing, left, member⟩ | ⟨none, told, ended, project, counters⟩
    · obtain ⟨proper, fair⟩ := ih.1 standing left _ member
      exact yields.isFair loaded genuine proper (.inl fair)
    · obtain ⟨proper, uncounted⟩ := ih.2 none told ended
      exact yields.isFair loaded genuine (project ▸ proper) (.inr (counters ▸ uncounted))

/-- What a run counts adds up, if the parsers make well-formed trees. A run that ends is interrupted
before its search, or its search is accounted for: the driver was run for each candidate that was
accepted or rejected and could be parsed; those that could not be parsed and those with an
inconclusive verdict were rejected; those accepted were committed, and each took a byte at least. So
it is for a run that gives up after too many inconclusive verdicts. Hence, wherever the search of a
run has stood that begins anew or goes on from a snapshot of such a run, the candidates accepted in
all and the size come to no more than the size at first. -/
theorem perform_accounts (host : Host) (makes : host.parsers.MakeTrees) (run : Run)
    (engine : Engine) :
    (run.perform host).Ends
      (fun result after => (∃ hearing, after.judge = engine.judge.hears hearing ∧
          hearing.cancelled = true ∧ result.status = .interrupted) ∨
        ∃ standing, after.standing = some standing ∧ result.project = standing.progress.project ∧
          result.counters = standing.progress.counters ∧
          run.Accounts host engine standing.progress after.judge)
      (fun failure after => ∀ streak last, failure = .abort streak last → host.Raises failure ∨
        ∃ standing, after.standing = some standing ∧
          run.Accounts host engine standing.progress after.judge) engine ∧
    ∀ result after, Succession result after → ∀ standing, after.standing = some standing →
      ∀ progress ∈ standing.states,
        progress.counters.accepted + progress.project.size ≤ progress.counters.initialSize := by
  constructor
  · have accounts : ∀ {progress begun session}, run.Reaches host engine progress begun →
        Session.Covered host (begun.begins progress) session →
        run.Accounts host engine session.progress session.engine.judge := by
      rintro progress begun session reaches ⟨ledger, covers⟩
      exact ⟨progress, begun, ledger, reaches, covers, covers.commits.size_le⟩
    refine run.perform_reached engine ?_ ?_ ?_ ?_
    · rintro result after ⟨-, ⟨hearing, heard, stop⟩, status, -, -⟩
      exact .inl ⟨hearing, heard, stop, status⟩
    · rintro _ after stops streak last rfl
      exact .inl (stops.admits.raises rfl (by simp [Engine.early]))
    · rintro progress begun result after reaches
        ⟨phase, session, ended, reached, -, goes, rfl, project, counters⟩
      refine .inr ⟨_, rfl, project, counters, ?_⟩
      rw [goes.judge]
      exact accounts reaches (reached.covered makes reaches.isSound (reaches.yields.isParsed makes))
    · rintro progress begun _ after reaches breaks streak last rfl
      refine (breaks.covered makes reaches.isSound (reaches.yields.isParsed makes)).imp_right ?_
      rintro ⟨session, left, judge, covered⟩
      refine ⟨_, left, ?_⟩
      rw [judge]
      exact accounts reaches covered
  · exact fun result after succession standing left progress member =>
      (succession.settles.1 standing left progress member).2

end Run

namespace Sample

/-- A driver that does not reproduce the bug when it is run for the second time. -/
def fickle : Host :=
  { host with launch := fun _ _ count disk =>
      { disk, start := .running false { exit := if count = 2 then 1 else 0 } } }

/-- After one candidate was rejected for that, two are accepted; the driver was run once before. -/
theorem perform_accounts_lines : ∃ result after standing,
    ((Run.fresh root [.text "a"]).perform fickle).runOn engine = (.ok result, after) ∧
      after.standing = some standing ∧ result.counters.accepted = 2 ∧ result.counters.rejected = 1 ∧
      after.judge.invocations = 4 ∧
      (Run.fresh root [.text "a"]).Accounts fickle engine standing.progress after.judge ∧
      ∀ progress ∈ standing.states,
        progress.counters.accepted + progress.project.size ≤ progress.counters.initialSize := by
  obtain ⟨accounts, fair⟩ :=
    Run.perform_accounts fickle host_makesTrees (.fresh root [.text "a"]) engine
  have ends : ((Run.fresh root [.text "a"]).perform fickle).Ends
      (fun result after => result.status = .fixpoint ∧ result.counters.accepted = 2 ∧
        result.counters.rejected = 1 ∧ after.judge.invocations = 4) (fun _ _ => False) engine := by
    decide +kernel
  obtain ⟨result, after, ran, status, accepted, rejected, invoked⟩ := ends.exists_ok
  rcases (Step.ends_ok ran).mp accounts with ⟨hearing, -, -, stopped⟩ | ⟨standing, left, -, -, whole⟩
  · cases status.symm.trans stopped
  · exact ⟨result, after, standing, ran, left, accepted, rejected, invoked, whole,
      fair _ after (.fresh rfl ran) standing left⟩

end Sample
end Whittle
