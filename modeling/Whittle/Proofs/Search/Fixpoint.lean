import Whittle.Proofs.Search.Faithful

/-!
A search that ends in a fixpoint has tried everything on the final project: since the last
sweep of the first pass nothing was accepted, and every later pass made one full sweep
after it. What was heard of a candidate stays on record, so a search learns on its way which
candidates are of no use (`Session.Learnt`, `Pass.Exhausted`).
-/

namespace Whittle

variable {parsers : Parsers} {candidate : Candidate} {index : Nat} {pass : Pass}
  {target : Option String} {layout : Layout} {grounds : Grounds} {outfit : Outfit} {host : Host}

/-! ### Projects that withstand candidates -/

/-- A candidate is of no use for a project: it does not parse, it does not make the project smaller,
or the bug is not to be seen on what it makes of the files. -/
def Project.Withstands (parsers : Parsers) (refuted : (String → Option Bytes) → Prop)
    (project : Project) (candidate : Candidate) : Prop :=
  match project.apply parsers candidate with
  | .error (.candidateUnparsed _ _ _) => True
  | .error _ => False
  | .ok buffers => project.size ≤ buffers.size ∨
    refuted (Listing.overlay buffers.contents (project.contents.get?))

/-- A pass makes candidates at a target, from the beginning, and none is of use for a project. -/
def Pass.Exhausted (parsers : Parsers) (refuted : (String → Option Bytes) → Prop) (project : Project)
    (index : Nat) (pass : Pass) (target : Option String) : Prop :=
  match pass.proposals project target index none with
  | .error _ => False
  | .ok candidates => ∀ candidate ∈ candidates, project.Withstands parsers refuted candidate

/-- No candidate that any of the passes makes at any target is of use for a project. -/
def Project.IsFixpoint (parsers : Parsers) (refuted : (String → Option Bytes) → Prop)
    (passes : List Pass) (project : Project) : Prop :=
  ∀ index pass, passes[index]? = some pass → ∀ target ∈ Session.targets pass project,
    pass.Exhausted parsers refuted project index target

section Withstands

variable {refuted refuted' : (String → Option Bytes) → Prop} {project : Project}

instance [DecidablePred refuted] : Decidable (project.Withstands parsers refuted candidate) := by
  unfold Project.Withstands
  split <;> infer_instance

instance {index : Nat} {pass : Pass} {target : Option String} [DecidablePred refuted] :
    Decidable (pass.Exhausted parsers refuted project index target) := by
  unfold Pass.Exhausted
  split <;> infer_instance

theorem Project.Withstands.imp (withstands : project.Withstands parsers refuted candidate)
    (more : ∀ buffers, project.apply parsers candidate = .ok buffers →
      refuted (Listing.overlay buffers.contents (project.contents.get?)) →
      refuted' (Listing.overlay buffers.contents (project.contents.get?))) :
    project.Withstands parsers refuted' candidate := by
  unfold Withstands at withstands ⊢
  split
  · trivial
  · next other failed => simp_all
  · next buffers applied =>
    rw [applied] at withstands
    exact withstands.imp_right (more buffers applied)

theorem Pass.Exhausted.imp (exhausted : pass.Exhausted parsers refuted project index target)
    (more : ∀ candidate buffers, project.apply parsers candidate = .ok buffers →
      refuted (Listing.overlay buffers.contents (project.contents.get?)) →
      refuted' (Listing.overlay buffers.contents (project.contents.get?))) :
    pass.Exhausted parsers refuted' project index target := by
  unfold Exhausted at exhausted ⊢
  split at exhausted
  · exact exhausted
  · exact fun candidate member => (exhausted candidate member).imp (more candidate)

end Withstands

/-- By what was heard, the driver does not reproduce the bug on files that show these bytes. -/
def Layout.Refutes (layout : Layout) (hearings : List Hearing) (shown : String → Option Bytes) :
    Prop :=
  ∃ hearing ∈ hearings, hearing.verdict.reproduces = false ∧ hearing.Of layout shown

theorem Layout.Refutes.mono {before after : List Hearing}
    {shown : String → Option Bytes} (refutes : layout.Refutes before shown)
    (more : before ⊆ after) : layout.Refutes after shown := by
  obtain ⟨hearing, member, rest⟩ := refutes
  exact ⟨hearing, more member, rest⟩

theorem Trial.Refused.withstands {before : Bench} {hearings : List Hearing}
    (refused : Refused layout parsers before candidate hearings) :
    before.judge.hearings ⊆ hearings ∧
      before.project.Withstands parsers (layout.Refutes hearings) candidate := by
  unfold Project.Withstands
  cases refused with
  | unparsed applied =>
    rw [applied]
    exact ⟨List.Subset.refl _, trivial⟩
  | notSmaller applied size =>
    rw [applied]
    exact ⟨List.Subset.refl _, .inl size⟩
  | judged applied not tells =>
    rw [applied]
    exact ⟨List.subset_cons_self _ _, .inr ⟨_, List.mem_cons_self, not, tells⟩⟩

/-! ### What a search learns -/

namespace Session

variable {session before after : Session}

/-- A candidate is known to be of no use for the accepted project. -/
abbrev Knows (grounds : Grounds) (host : Host) (session : Session) (candidate : Candidate) : Prop :=
  session.progress.project.Withstands host.parsers
    (grounds.toLayout.Refutes session.engine.judge.hearings) candidate

abbrev Exhausted (grounds : Grounds) (host : Host) (index : Nat) (pass : Pass)
    (target : Option String) (session : Session) : Prop :=
  pass.Exhausted host.parsers (grounds.toLayout.Refutes session.engine.judge.hearings)
    session.progress.project index target

theorem Knows.abides (knows : before.Knows grounds host candidate)
    (abides : Abides grounds outfit before after) : after.Knows grounds host candidate := by
  rw [Knows, abides.project]
  exact knows.imp fun _ _ refutes => refutes.mono abides.hearings

theorem Exhausted.abides (exhausted : before.Exhausted grounds host index pass target)
    (abides : Abides grounds outfit before after) :
    after.Exhausted grounds host index pass target := by
  rw [Exhausted, abides.project]
  exact exhausted.imp fun _ _ _ refutes => refutes.mono abides.hearings

/-- What is known in a faithful session, by the tally of the search and the candidates that were
refused since they were made. -/
structure Learnt (grounds : Grounds) (outfit : Outfit) (host : Host) (tally : Tally)
    (refused : List Candidate) (session : Session) : Prop where
  faithful : session.Faithful grounds outfit
  settled : ∀ target ∈ tally.settled,
    session.Exhausted grounds host target.1 target.2.1 target.2.2
  exhausted : ∀ entry ∈ tally.exhausted, ∀ target ∈ targets entry.2 session.progress.project,
    session.Exhausted grounds host entry.1 entry.2 target
  refused : ∀ candidate ∈ refused, session.Knows grounds host candidate

variable {tally : Tally} {refused : List Candidate}

theorem Learnt.of_faithful (unsettled : tally.settled = []) (unexhausted : tally.exhausted = [])
    (faithful : session.Faithful grounds outfit) : Learnt grounds outfit host tally [] session :=
  ⟨faithful, by simp [unsettled], by simp [unexhausted], by simp⟩

theorem Learnt.forgets (learnt : Learnt grounds outfit host tally refused session) :
    Learnt grounds outfit host tally [] session :=
  { learnt with refused := by simp }

theorem Learnt.abides (learnt : Learnt grounds outfit host tally refused before)
    (abides : Abides grounds outfit before after) : Learnt grounds outfit host tally refused after where
  faithful := abides.faithful
  settled target member := (learnt.settled target member).abides abides
  exhausted entry member target there := by
    rw [abides.project] at there
    exact (learnt.exhausted entry member target there).abides abides
  refused candidate member := (learnt.refused candidate member).abides abides

def learning (grounds : Grounds) (outfit : Outfit) (host : Host) : Guide where
  chooses tally := Learnt grounds outfit host tally []
  here tally := Learnt grounds outfit host tally []
  ready := Learnt grounds outfit host
  tried tally refused trial session := session.Faithful grounds outfit ∧ (trial.committed = false →
    Learnt grounds outfit host tally (trial.candidate :: refused) session)
  ended phase session := session.Faithful grounds outfit ∧ (phase = .fixpoint →
    session.progress.project.IsFixpoint host.parsers
      (grounds.toLayout.Refutes session.engine.judge.hearings) outfit.passes)
  failed _ _ := True

section

variable (undisturbed : grounds.toLayout.Undisturbed grounds.drift host outfit.driver {})
  (writable : grounds.toLayout.Writable)

include undisturbed writable

theorem trial_ends_learnt (candidate : Candidate)
    (learnt : Learnt grounds outfit host tally refused session) :
    (trial host candidate).Ends ((learning grounds outfit host).tried tally refused)
      (fun _ _ => True) session := by
  refine ((trial_ends_faithful undisturbed writable candidate learnt.faithful).and
    (trial_commits host candidate session)).imp ?_ fun _ _ _ => trivial
  rintro trial after ⟨⟨faithful, refuses⟩, ⟨rfl, -⟩, -⟩
  refine ⟨faithful, fun rejected => ?_⟩
  obtain ⟨project, refused⟩ := refuses rejected
  obtain ⟨hearings, withstands⟩ := refused.withstands
  have learnt := learnt.abides ⟨faithful, project, hearings⟩
  refine { learnt with refused := List.forall_mem_cons.mpr ⟨?_, learnt.refused⟩ }
  rw [Knows, project]
  exact withstands

theorem holds_learning : (learning grounds outfit host).Holds host := by
  have enters : ∀ {phase data tally refused session},
      Learnt grounds outfit host tally refused session →
      (enter phase data).Ends (fun _ => Learnt grounds outfit host tally refused) (fun _ _ => True)
        session := fun {phase data _ _ _} learnt =>
    (enter_ends_abides learnt.faithful phase data).imp (fun _ _ => learnt.abides) fun _ _ _ => trivial
  constructor
  case goes => exact fun _ _ => trivial
  case target => exact fun _ _ _ _ _ => trivial
  case numbers => exact fun _ _ _ _ _ _ => trivial
  case select =>
    intro index pass tally session _ learnt
    have learnt : Learnt grounds outfit host tally.select [] session :=
      { learnt with settled := by simp [Tally.select] }
    refine (enters learnt).imp (fun _ _ learnt => ⟨fun _ => ?_, fun _ => learnt⟩) fun _ _ => id
    exact ⟨learnt.faithful, fun fixpoint => (by cases fixpoint)⟩
  case unplaced => exact fun _ _ _ _ _ _ _ _ => trivial
  case generate => exact fun _ _ _ _ _ => enters
  case offers => exact fun _ _ _ _ _ _ _ _ => ⟨fun _ _ _ _ => trivial, fun _ _ => trivial⟩
  case test =>
    intro _ _ candidate _ _ learnt
    exact (enters learnt).imp (fun _ _ => trial_ends_learnt undisturbed writable candidate)
      fun _ _ => id
  case accept =>
    intro tally _ trial session _ tried
    exact (calm_faithful.accept trivial _ tried.1).imp (fun _ _ => .of_faithful rfl rfl)
      fun _ _ _ => trivial
  case reject =>
    intro tally refused trial session rejected tried
    have learnt := tried.2 rejected
    refine ((calm_abides _).toQuiet.reject trivial _ (.refl tried.1)).imp ?_ fun _ _ _ => trivial
    intro _ noted abides
    have learnt := learnt.abides abides
    exact ⟨fun _ => learnt.forgets, fun _ _ _ => enters learnt⟩
  case settle =>
    intro tally refused session index pass path position candidates made all learnt
    unfold Tally.settle
    split
    · next first =>
      subst first
      refine { learnt.forgets with settled := List.forall_mem_cons.mpr ⟨?_, learnt.settled⟩ }
      rw [Exhausted, Pass.Exhausted, made]
      exact fun candidate member => learnt.refused candidate (all member)
    · exact learnt.forgets
  case log =>
    exact fun _ _ _ _ _ learnt => ((calm_abides _).log _ _ _ (.refl learnt.faithful)).imp
      (fun _ _ => learnt.abides) fun _ _ _ => trivial
  case stop =>
    exact fun _ _ _ _ _ _ learnt => (enters learnt).imp
      (fun _ _ learnt => ⟨learnt.faithful, fun fixpoint => (by cases fixpoint)⟩) fun _ _ => id
  case rest =>
    intro tally session index pass _ learnt all
    refine { learnt with exhausted := List.forall_mem_cons.mpr ⟨fun target there => ?_, learnt.exhausted⟩ }
    exact learnt.settled _ (all target there)
  case fixpoint =>
    intro tally later session after learnt learnt' all _
    refine ⟨learnt'.faithful, fun _ index pass found => learnt'.exhausted (index, pass) (all ?_)⟩
    refine List.mem_iff_getElem?.mpr ⟨index, ?_⟩
    rw [getElem?_numbered, learnt.faithful.upholds.passes, Nat.zero_add, found]
    rfl

end

end Session

/-! ### Whole searches -/

namespace Engine

variable {engine : Engine} {progress : Progress}

theorem search_ends_fixpoint
    (undisturbed : grounds.toLayout.Undisturbed grounds.drift host outfit.driver {})
    (writable : grounds.toLayout.Writable) (upholds : engine.Upholds grounds outfit progress.project)
    (untold : engine.trail.filter Phase.isSettled = []) :
    (search host progress).Ends
      (fun result after => result.status = .fixpoint → grounds.Bears result.project ∧
        result.project.IsFixpoint host.parsers (grounds.toLayout.Refutes after.judge.hearings)
          outfit.passes)
      (fun _ _ => True) engine := by
  refine search_ends_of ((Session.holds_learning undisturbed writable).rounds _ _
    (.of_faithful rfl rfl (Session.Faithful.begins upholds untold))) (fun _ _ _ => trivial) ?_
    fun _ _ _ _ => Step.ends_const.mpr trivial
  rintro phase session ⟨faithful, fixpoint⟩
  refine (finish_ends faithful.upholds.within faithful.upholds.bears.inner phase _).imp ?_
    fun _ _ _ => trivial
  rintro result engine ⟨notes, rfl, project⟩ ended
  rw [project]
  refine ⟨faithful.upholds.bears, ?_⟩
  have judge : engine.judge = session.engine.judge := notes.judge
  rw [judge]
  exact fixpoint ended

end Engine
end Whittle
