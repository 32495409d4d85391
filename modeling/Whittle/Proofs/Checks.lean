import Whittle.Proofs.Invariant
import Whittle.Proofs.Opening
import Whittle.Proofs.Search.Checked

/-!
The checks that a run makes of itself. Whatever is on disk and whatever the driver makes of it, no
candidate is written while another is pending, none is left pending after its trial, and an accepted
one has made the project as small as its trial told. So a run never fails for a broken invariant,
unless the driver itself fails so (`Run.perform_unbroken`).
-/

namespace Whittle

namespace Run

/-- No run fails for a broken invariant, unless the driver fails so when it is started. A search that
has ended leaves nothing pending, and the projects at its scenes get no larger, those of accepted
candidates smaller. Each trial that begins with nothing pending ends so, and one that commits its
candidate has made the project as small as it tells, and smaller than before. -/
theorem perform_unbroken (host : Host) (run : Run) (engine : Engine) :
    (run.perform host).Ends
      (fun _ after => after.standing = engine.standing ∨ ∃ standing, after.standing = some standing ∧
        standing.worktree.dirty = false ∧ Scene.Descend standing.scenes)
      (fun failure after => (∀ fault, failure = .invariant fault → host.Raises failure) ∧
        (after.standing = engine.standing ∨ ∃ standing, after.standing = some standing ∧
          Scene.Descend standing.scenes)) engine ∧
    ∀ driver candidate bench, bench.worktree.dirty = false → Listing.IsProper bench.project.files →
      (Trial.run host driver {} candidate).Ends
        (fun trial after => after.worktree.dirty = false ∧ Listing.IsProper after.project.files ∧
          (trial.committed = true → (after.project.size : Int) = trial.sizeAfter ∧
            trial.sizeAfter < trial.sizeBefore))
        (fun failure _ => ∀ fault, failure = .invariant fault → host.Raises failure) bench := by
  constructor
  · refine run.perform_reached engine ?_ ?_ ?_ ?_
    · exact fun _ after ceases => .inl ceases.standing
    · rintro failure after stops
      refine ⟨?_, .inl stops.standing⟩
      rintro fault rfl
      exact stops.admits.raises rfl (by simp [Engine.early])
    · exact fun progress begun result after reaches concludes =>
        .inr (concludes.checked reaches.isSound rfl)
    · intro progress begun failure after reaches breaks
      obtain ⟨admits, descends⟩ := breaks.checked reaches.isSound rfl
      refine ⟨?_, .inr descends⟩
      rintro fault rfl
      exact admits.raises rfl (by simp)
  · intro driver candidate bench clean proper
    have sound : bench.IsSound := ⟨by simpa [Worktree.dirty] using clean, proper⟩
    refine (Trial.run_ended candidate sound).imp ?_ ?_
    · intro trial after ended
      have settled := ended.isSound sound
      refine ⟨by simp [Worktree.dirty, settled.clean], settled.proper, fun committed => ?_⟩
      exact (ended.sizes sound committed).imp_right And.left
    · rintro _ after failed fault rfl
      exact failed.admits.raises rfl (by simp)

end Run

namespace Sample

/-- The run on the small project ends with nothing pending, and a trial on it commits its candidate,
which takes the first line. -/
theorem perform_unbroken_lines :
    (∃ result after, ((Run.fresh root [.text "a"]).perform host).runOn engine = (.ok result, after) ∧
      ∃ standing, after.standing = some standing ∧ standing.worktree.dirty = false ∧
        Scene.Descend standing.scenes) ∧
    ∃ trial after, (Trial.run host "driver" {} candidate).runOn bench = (.ok trial, after) ∧
      after.worktree.dirty = false ∧ trial.committed = true ∧
      (after.project.size : Int) = trial.sizeAfter := by
  obtain ⟨whole, trials⟩ := Run.perform_unbroken host (.fresh root [.text "a"]) engine
  constructor
  · have ends : ((Run.fresh root [.text "a"]).perform host).Ends
        (fun _ after => after.standing.isSome = true) (fun _ _ => False) engine := by
      decide +kernel
    obtain ⟨result, after, ran, searched⟩ := ends.exists_ok
    refine ⟨result, after, ran, ((Step.ends_ok ran).mp whole).resolve_left fun same => ?_⟩
    rw [same] at searched
    cases searched
  · have ends : (Trial.run host "driver" {} candidate).Ends (fun trial _ => trial.committed = true)
        (fun _ _ => False) bench := by
      decide +kernel
    obtain ⟨trial, after, ran, committed⟩ := ends.exists_ok
    obtain ⟨clean, -, sizes⟩ := (Step.ends_ok ran).mp
      (trials "driver" candidate bench rfl bench_settled.proper)
    exact ⟨trial, after, ran, clean, committed, (sizes committed).1⟩

end Sample
end Whittle
