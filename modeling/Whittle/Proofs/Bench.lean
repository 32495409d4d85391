import Whittle.Proofs.Step
import Whittle.Trial

/-!
What trials do to the accepted project and to sizes, whatever the disk is like. A trial
that does not commit leaves the project as it was, and one that commits had a candidate
that makes it smaller.
-/

namespace Whittle

/-! ### The judge -/

theorem Verdict.isInconclusive_of_reproduces {verdict : Verdict}
    (reproduces : verdict.reproduces = true) : verdict.isInconclusive = false := by
  cases verdict with
  | exited => rfl
  | inconclusive => cases reproduces

namespace Judge

variable {judge : Judge} {watching : Bool} {process : Process} {deadline : Option Float}

theorem wait_stays_cancelled (left waited : Nat) (clock : Float) :
    (judge.wait watching process deadline left waited clock true).2.2 = true := by
  induction left generalizing waited clock with
  | zero => rfl
  | succ left ih =>
    rw [wait, Bool.true_or]
    split
    · rfl
    · split
      · rfl
      · exact ih _ _

theorem observe_leaves {world after : World} {result : Except Value.Fault Verdict}
    (observed : judge.observe watching process deadline world = (result, after)) :
    after.disk = world.disk ∧ (world.cancelled = true → after.cancelled = true) ∧
      after.launches = world.launches := by
  unfold observe at observed
  rcases ended : judge.wait watching process deadline process.polls 0 world.clock world.cancelled with
    ⟨ending, clock, cancelled⟩
  have stays : world.cancelled = true → cancelled = true := by
    intro stop
    rw [stop] at ended
    exact (congrArg (·.2.2) ended).symm.trans (wait_stays_cancelled ..)
  rw [ended] at observed
  cases ending <;> cases observed <;> exact ⟨rfl, stays, rfl⟩

/-- The judge once the driver was started, with no verdict yet. -/
def called (judge : Judge) : Judge :=
  { judge with invocations := judge.invocations + 1 }

/-- The judge after a run of the driver that led to a verdict. -/
def hears (judge : Judge) (hearing : Hearing) : Judge :=
  judge.called.count hearing

/-- A run of the driver leaves the disk as the driver does, and a wish to stop is not taken back. If
it led to a verdict, it is remembered with the disk that the driver found; else it fails as its start
does, or for a limit that is none. -/
inductive Ran (host : Host) (root : Path) (driver : String) (judge : Judge) (world : World) :
    Except Failure Verdict × Judge × World → Prop where
  | heard {verdict : Verdict} (after : World) :
    after.disk = (host.launch root driver (world.launches + 1) world.disk).disk →
    (world.cancelled = true → after.cancelled = true) → after.launches = world.launches + 1 →
    Ran host root driver judge world
      (.ok verdict, judge.hears { disk := world.disk, verdict, cancelled := after.cancelled }, after)
  | unheard {failure : Failure} {after : World} :
    after.disk = (host.launch root driver (world.launches + 1) world.disk).disk →
    (world.cancelled = true → after.cancelled = true) →
    ((host.launch root driver (world.launches + 1) world.disk).start = .failed failure ∨
      ∃ fault, failure = .value fault) →
    Ran host root driver judge world (.error failure, judge.called, after)

theorem ran_run (host : Host) (root : Path) (driver : String) (watching : Bool) (judge : Judge)
    (world : World) : Ran host root driver judge world (judge.run host root driver watching world) := by
  unfold run
  dsimp only
  split
  · next starts => exact .unheard rfl id (.inl starts)
  · exact .heard { world with launches := _, disk := _ } rfl id rfl
  · next cancels process _ =>
    have told : world.cancelled = true → (world.cancelled || cancels) = true := fun stop => by rw [stop]; rfl
    split
    · exact .unheard rfl told (.inr ⟨_, rfl⟩)
    · split
      · next observed =>
        have leaves := observe_leaves observed
        exact .unheard leaves.1 (leaves.2.1 ∘ told) (.inr ⟨_, rfl⟩)
      · next observed =>
        have leaves := observe_leaves observed
        exact .heard _ leaves.1 (leaves.2.1 ∘ told) leaves.2.2

theorem Ran.disk {host : Host} {root : Path} {driver : String} {world : World}
    {left : Except Failure Verdict × Judge × World} (ran : Ran host root driver judge world left) :
    left.2.2.disk = (host.launch root driver (world.launches + 1) world.disk).disk := by
  cases ran with
  | heard _ disk => exact disk
  | unheard disk => exact disk

end Judge

/-! ### Trials -/

namespace Bench

variable {α : Type} {accepted : Project}

theorem onDisk_keeps_project (step : Step Disk α) :
    (onDisk step).Keeps (·.project = accepted) :=
  keeps_within step fun _ _ holds => holds

theorem onWorktree_keeps_project (step : Step (Worktree × Disk) α) :
    (onWorktree step).Keeps (·.project = accepted) :=
  keeps_within step fun _ _ holds => holds

theorem restore_keeps_project : restore.Keeps (·.project = accepted) :=
  Step.keeps_get.bind fun _ => onWorktree_keeps_project _

theorem judgeCandidate_keeps_project (host : Host) (driver : String) :
    (judgeCandidate host driver).Keeps (·.project = accepted) :=
  Step.keeps_iff.mpr fun _ holds => holds

theorem ends_judgeCandidate {host : Host} {driver : String} {bench : Bench} {done : Verdict → Bench → Prop}
    {failed : Failure → Bench → Prop}
    (so : ∀ left, bench.judge.run host bench.worktree.root driver true bench.world = left →
      Judge.Ran host bench.worktree.root driver bench.judge bench.world left →
      Step.Outcome done failed (left.1, { bench with judge := left.2.1, world := left.2.2 })) :
    (judgeCandidate host driver).Ends done failed bench :=
  so _ rfl (Judge.ran_run ..)

section

variable {buffers : Project.Buffers} {bench : Bench} {done : Unit → Bench → Prop}
  {failed : Failure → Bench → Prop}

theorem ends_accept : (accept buffers).Ends done failed bench ↔
      (∀ project, bench.project.commit buffers = (.ok (), project) →
        done () { bench with project, worktree := bench.worktree.settle }) ∧
      ∀ failure project, bench.project.commit buffers = (.error failure, project) →
        failed failure { bench with project } := by
  change Step.Outcome done failed (accept buffers bench) ↔ _
  rw [accept]
  rcases bench.project.commit buffers with ⟨_ | _, project⟩ <;> simp [Step.Outcome]

theorem ends_accept_of {project : Project}
    (committed : bench.project.commit buffers = (.ok (), project)) :
    (accept buffers).Ends done failed bench ↔
      done () { bench with project, worktree := bench.worktree.settle } := by
  simp [ends_accept, committed]

end

end Bench

namespace Trial

variable {accepted : Project}

theorem materialize_keeps_project (host : Host) (buffers : Project.Buffers) :
    (materialize host buffers).Keeps (·.project = accepted) := by
  refine Step.keeps_get.bind fun _ => (Bench.onWorktree_keeps_project _).attempt.bind fun result => ?_
  cases result with
  | ok done => exact keeps_pure _
  | error failure =>
    cases failure with
    | write fault => exact Bench.restore_keeps_project.bind fun _ => keeps_throw _
    | _ => exact keeps_throw _

theorem judge_keeps_project (host : Host) (driver : String) (hooks : Hooks) :
    (judge host driver hooks).Keeps (·.project = accepted) := by
  refine (Step.Keeps.bind (Bench.judgeCandidate_keeps_project host driver) fun verdict =>
    (Bench.onDisk_keeps_project (hooks.cleanup verdict.reproduces)).bind
      fun _ => keeps_pure verdict).attempt.bind fun result => ?_
  cases result with
  | ok verdict => exact keeps_pure _
  | error failure => exact Bench.restore_keeps_project.bind fun _ => keeps_throw _

/-- A trial leaves the project as it was, or commits the buffers that were made from it; these make it
smaller. -/
theorem run_commits (host : Host) (driver : String) (hooks : Hooks) (candidate : Candidate)
    (bench : Bench) :
    (run host driver hooks candidate).Ends
      (fun trial after => (trial.candidate = candidate ∧ trial.sizeBefore = bench.project.size) ∧
        (trial.committed = false ∧ after.project = bench.project ∨
          (trial.committed = true ∧ 0 ≤ trial.sizeAfter ∧ trial.sizeAfter < trial.sizeBefore) ∧
          ∃ buffers, bench.project.apply host.parsers candidate = .ok buffers ∧
            bench.project.commit buffers = (.ok (), after.project)))
      (fun _ after => after.project = bench.project ∨
        ∃ buffers failure, bench.project.apply host.parsers candidate = .ok buffers ∧
          bench.project.commit buffers = (.error failure, after.project)) bench := by
  rw [run, ends_get_bind]
  dsimp only
  split
  · next failure _ =>
    cases failure with
    | candidateUnparsed => exact ⟨⟨rfl, rfl⟩, .inl ⟨rfl, rfl⟩⟩
    | _ => exact .inl rfl
  · next buffers applied =>
    rw [ends_ite]
    refine ⟨fun _ => ⟨⟨rfl, rfl⟩, .inl ⟨rfl, rfl⟩⟩, fun larger => ?_⟩
    refine (Bench.onDisk_keeps_project hooks.prepare bench rfl).bind ?_ fun _ _ => .inl
    intro _ prepared same
    refine (materialize_keeps_project host buffers prepared same).bind ?_ fun _ _ => .inl
    intro _ written same
    refine (judge_keeps_project host driver hooks written same).bind ?_ fun _ _ => .inl
    intro verdict judged same
    rw [ends_ite]
    constructor
    · intro _
      rw [ends_bind]
      refine Bench.ends_accept.mpr ⟨fun project committed => ?_, fun failure project fails => ?_⟩
      · refine ⟨⟨rfl, rfl⟩, .inr ⟨⟨rfl, Int.natCast_nonneg _, ?_⟩, buffers, applied, same ▸ committed⟩⟩
        exact Int.ofNat_lt.mpr (Nat.lt_of_not_le larger)
      · exact .inr ⟨buffers, failure, applied, same ▸ fails⟩
    · intro _
      exact (Bench.restore_keeps_project judged same).bind
        (fun _ _ same => ⟨⟨rfl, rfl⟩, .inl ⟨rfl, same⟩⟩) fun _ _ => .inl

/-- However a trial ends, the project is as it was, or buffers were committed that were made from it. -/
theorem run_changes (host : Host) (driver : String) (hooks : Hooks) (candidate : Candidate)
    (bench after : Bench) (left : ((run host driver hooks candidate).runOn bench).2 = after) :
    after.project = bench.project ∨
      ∃ buffers result, bench.project.apply host.parsers candidate = .ok buffers ∧
        bench.project.commit buffers = (result, after.project) := by
  have ends := run_commits host driver hooks candidate bench
  unfold Step.Ends at ends
  rcases ran : (run host driver hooks candidate).runOn bench with ⟨failure | trial, last⟩
  · rw [ran] at ends left
    cases left
    exact ends.imp_right fun ⟨buffers, _, applied, done⟩ => ⟨buffers, _, applied, done⟩
  · rw [ran] at ends left
    cases left
    exact ends.2.imp And.right fun ⟨_, buffers, applied, done⟩ => ⟨buffers, _, applied, done⟩

end Trial
end Whittle
