import Whittle.Proofs.Search.Steady

/-!
The search comes to an end, whatever the driver answers: its loops do on every session, with the
answers of the search, and no more candidates are accepted than the project has bytes.
-/

namespace Whittle

namespace Engine

variable {accepts : Nat}

theorem fail_keeps_accepts (failure : Failure) (title : String) :
    (fail failure title).Keeps (·.trail.count .accepting ≤ accepts) := by
  refine Step.keeps_get.bind fun _ engine few => ?_
  split
  · exact (enter_goes engine _ _).imp (fun _ _ goes => goes.accepted (by simp) ▸ few)
      fun _ _ failed => failed.1.accepted (by simp) ▸ few
  · exact few

theorem finish_keeps_accepts (progress : Progress) {status : Phase} (other : status ≠ .accepting)
    (initialSize : Int) :
    (finish progress status initialSize).Keeps (·.trail.count .accepting ≤ accepts) := by
  have other : .accepting ∉ [status] := by simpa using other.symm
  intro engine few
  refine (finish_goes engine progress status initialSize).imp
    (fun _ _ ends => ends.1.accepted other ▸ few) ?_
  rintro _ _ (⟨goes, -⟩ | ⟨goes, -⟩)
  · exact goes.accepted (by simp) ▸ few
  · exact goes.accepted other ▸ few

/-- A search comes to an end. Its three loops, repeated without a bound, end as the search does on
every session, so also on that with which it begins, wherever the bookmark points and whatever the
driver answers; and it accepts at most as many candidates as the project has bytes. -/
theorem search_terminates (host : Host) (progress : Progress) (engine : Engine) :
    let session : Session := { engine, progress, worktree := { root := progress.project.root } }
    let mark := resumeMark progress.bookmark
    let first := firstPass progress.bookmark engine.passes.length
    (∀ index pass path position accepted session,
      Step.Loops (Session.targetBody host index pass path) (position, accepted) session
        (Session.exhaustTarget host index pass path position accepted session)) ∧
    (∀ index pass resume total session,
      Step.Loops (Session.passBody host index pass) (resume, total) session
        (Session.exhaustPass host index pass resume total session)) ∧
    Step.Loops (Session.roundBody host) (mark, first) session
      (Session.rounds host mark first session) ∧
    ((search host progress).runOn engine).2.trail.count .accepting ≤
      engine.trail.count .accepting + progress.project.size := by
  intro session mark first
  refine ⟨Session.exhaustTarget_loops host, Session.exhaustPass_loops host,
    Session.rounds_loops host mark first session, ?_⟩
  have few : (search host progress).Ends
      (fun _ after => after.trail.count .accepting ≤ session.accepts + session.size)
      (fun _ after => after.trail.count .accepting ≤ session.accepts + session.size) engine := by
    rw [search, Step.ends_bind, Step.ends_get]
    refine guarded_ends (ends_inSession.mpr ?_) fail_keeps_accepts
    refine ((Session.holds_spending host session).rounds mark first
      (Session.spending_zero session)).bind ?_ fun _ _ => id
    rintro phase after ⟨ending, count, spent⟩
    have other : phase ≠ .accepting := by rcases ending with rfl | rfl <;> simp
    rw [Step.ends_bind, Session.mark, Step.ends_modify, Step.ends_bind, Step.ends_get]
    rw [Session.onEngine, Step.ends_within]
    exact finish_keeps_accepts _ other _ after.engine spent.afforded
  exact Step.ends_const.mp few

end Engine
end Whittle
