import Whittle.Proofs.Search.Reached

/-!
The checks that a search makes of itself never fail. Between the acts of a search the accepted project
is no larger than at any scene before (`Session.Reached.checked`), and an accepted candidate has made
it smaller. An act fails as a reduction only if files cannot be written, or after too many
inconclusive verdicts (`Session.Fails.admits`). So no search ends for a broken invariant, and the
projects at its scenes get no larger, those of accepted candidates smaller.
-/

namespace Whittle

variable {bench : Bench} {candidate : Candidate} {trial : Trial}

/-- Scenes, the latest first, at which the projects get no larger; one that was just accepted is
smaller than all before it. -/
def Scene.Descend (scenes : List Scene) : Prop :=
  scenes.Pairwise fun later earlier => later.project.size ≤ earlier.project.size ∧
    (later.phase = .accepting → later.project.size < earlier.project.size)

namespace Session

variable {host : Host} {phase : Phase} {start session before after : Session}
  {failure : Failure}

/-- The projects at the scenes get no larger, and none is smaller than the one accepted now. -/
structure Checked (session : Session) : Prop where
  descend : Scene.Descend session.scenes
  least : ∀ scene ∈ session.scenes, session.size ≤ scene.project.size

namespace Checked

section

variable (checked : session.Checked)

include checked

theorem logs (moves : Moves [] session after) : after.Checked := by
  refine ⟨?_, fun scene member => ?_⟩
  · rw [moves.scenes]
    exact checked.descend
  · rw [moves.scenes] at member
    rw [moves.size]
    exact checked.least scene member

section

variable (smaller : phase = .accepting → ∀ scene ∈ session.scenes, session.size < scene.project.size)

include smaller

/-- A scene is added as a phase begins; an accepted candidate must have made the project smaller. -/
theorem mark : Scene.Descend (session.scene phase :: session.scenes) :=
  List.pairwise_cons.mpr ⟨fun scene member => ⟨checked.least scene member, fun is =>
    smaller is scene member⟩, checked.descend⟩

theorem enters (moves : Moves [phase] session after) : after.Checked := by
  refine ⟨?_, fun scene member => ?_⟩
  · rw [moves.scenes]
    exact checked.mark smaller
  · rw [moves.scenes] at member
    rw [moves.size]
    rcases List.mem_cons.mp member with rfl | old
    · exact Nat.le_refl _
    · exact checked.least scene old

end

theorem withBench (size : bench.project.size ≤ session.size) : (session.withBench bench).Checked :=
  ⟨checked.descend, fun scene member => Nat.le_trans size (checked.least scene member)⟩

end

theorem accepts (checked : before.Checked)
    (sound : before.bench.IsSound) (ended : Trial.Ended host before.bench candidate trial bench)
    (committed : trial.committed = true) (moves : Moves [.accepting] (before.withBench bench) after) :
    after.Checked := by
  obtain ⟨size, smaller, was⟩ := ended.sizes sound committed
  have was : trial.sizeBefore = before.size := was
  have less : bench.project.size < before.size := by omega
  refine (checked.withBench (Nat.le_of_lt less)).enters (fun _ scene member => ?_) moves
  exact Nat.lt_of_lt_of_le less (checked.least scene member)

theorem rejects (checked : before.Checked)
    (ended : Trial.Ended host before.bench candidate trial bench)
    (rejected : trial.committed = false)
    (moves : Moves [.rejecting] (before.withBench bench) after) : after.Checked := by
  have same : bench.project.size = before.size := congrArg Project.size (ended.project_eq rejected)
  exact (checked.withBench (Nat.le_of_eq same)).enters (by simp) moves

end Checked

theorem Leads.ne_accepting {next : Phase} (leads : session.Leads next) : next ≠ .accepting := by
  rintro rfl
  simpa using leads.among

/-- All acts of a search keep the projects from getting larger. -/
theorem Reached.checked (reached : Reached host start phase session)
    (sound : start.bench.IsSound) (fresh : start.scenes = []) : session.Checked := by
  induction reached with
  | start => exact ⟨by rw [fresh]; exact .nil, by simp [fresh]⟩
  | act reached act checked =>
    cases act with
    | enters leads moves _ => exact checked.enters (fun is => absurd is leads.ne_accepting) moves
    | logs moves _ => exact checked.logs moves
    | accepts _ ended committed moves _ =>
      exact checked.accepts (reached.isSound sound) ended committed moves
    | rejects _ ended rejected moves _ => exact checked.rejects ended rejected moves

theorem Fails.descend (fails : Fails host untold phase before failure after) (sound : before.bench.IsSound)
    (checked : before.Checked) : Scene.Descend after.scenes := by
  cases fails with
  | misled => exact checked.descend
  | unentered leads moves _ _ =>
    exact (checked.enters (fun is => absurd is leads.ne_accepting) moves).descend
  | unlogged moves _ _ => exact (checked.logs moves).descend
  | untried => exact checked.descend
  | unaccepted _ ended committed moves _ _ => exact (checked.accepts sound ended committed moves).descend
  | unrejected _ ended rejected moves _ => exact (checked.rejects ended rejected moves).descend

/-- A search fails as a reduction only if files cannot be written or after too many inconclusive
verdicts, or the driver does. -/
theorem Fails.admits (fails : Fails host untold phase before failure after) :
    host.Admits ["FilesystemWriteError", "OracleAbortError"] failure := by
  cases fails with
  | misled _ untitled => exact .of_none untitled
  | unentered _ _ _ lost => exact .of_none lost.untitled
  | unlogged _ _ lost => exact .of_none lost.untitled
  | untried _ failed => exact failed.admits.mono (by simp)
  | unaccepted _ _ _ _ _ lost => exact .of_none (lost.elim (·.untitled) (·.untitled))
  | unrejected _ _ _ _ balks =>
    rcases balks with ⟨-, lost⟩ | ⟨-, lost | ⟨-, among⟩⟩
    · exact .of_none lost.untitled
    · exact .of_none lost.untitled
    · exact .inr (among.mono (by simp))

theorem Checked.closed {status : Phase} (checked : session.Checked)
    (finishes : session.Finishes status) : Scene.Descend (session.closed status).scenes :=
  checked.mark fun is => by cases finishes <;> cases is

/-- A search that has ended leaves nothing pending. -/
theorem Concludes.checked {result : Result} {after : Engine}
    (concludes : Concludes host start result after) (sound : start.bench.IsSound)
    (fresh : start.scenes = []) : ∃ standing, after.standing = some standing ∧
      standing.worktree.dirty = false ∧ Scene.Descend standing.scenes := by
  obtain ⟨phase, session, ended, reached, finishes, -, rfl, -⟩ := concludes
  have clean : session.worktree.pending = [] := (reached.isSound sound).clean
  refine ⟨_, rfl, ?_, (reached.checked sound fresh).closed finishes⟩
  simp [Worktree.dirty, closed, clean]

/-- A search that has failed has not failed for a broken invariant. -/
theorem Breaks.checked {after : Engine} (breaks : Breaks host start failure after)
    (sound : start.bench.IsSound) (fresh : start.scenes = []) :
    host.Admits ["FilesystemWriteError", "OracleAbortError"] failure ∧
      ∃ standing, after.standing = some standing ∧ Scene.Descend standing.scenes := by
  rcases breaks with ⟨reached, finishes, -, left, lost⟩ | ⟨reached, fails, goes, told⟩
  · exact ⟨.of_none (lost.elim (·.untitled) (·.untitled)), _, left,
      (reached.checked sound fresh).closed finishes⟩
  · refine ⟨?_, _, goes.standing, fails.descend (reached.isSound sound) (reached.checked sound fresh)⟩
    rcases told with ⟨rfl, -⟩ | lost
    · exact fails.admits
    · exact .of_none lost.untitled

end Session
end Whittle
