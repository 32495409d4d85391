import Whittle.Proofs.Bookkeeping
import Whittle.Proofs.Record

/-!
The single acts of a search, wherever it is held. Going into a phase, logging, taking a snapshot and
noting that a candidate was accepted or rejected change what is on disk and in the records; each of
them adds its phase to the trail and its scene to the scenes, and leaves the judge, the wish to stop
and the accepted project alone (`Engine.Goes`, `Session.Moves`). None of them fails as a reduction
does, but for giving up after a rejected candidate.
-/

namespace Whittle

variable {phases : List Phase} {failure : Failure} {after : Engine}

/-! ### Events -/

namespace Value

variable {fault : Fault}

/-- A value cannot be written down, for this fault. -/
def Unwritten (value : Value) (fault : Fault) : Prop :=
  Json.arrange false value.plain = .error fault

@[simp] theorem unwritten_text (text : String) : ¬ (Value.text text).Unwritten fault := by
  simp [Unwritten, plain, Json.arrange]

@[simp] theorem unwritten_float (number : Float) : ¬ (Value.float number).Unwritten fault := by
  simp [Unwritten, plain, Json.arrange]

@[simp] theorem unwritten_bool (flag : Bool) : ¬ (Value.bool flag).Unwritten fault := by
  simp [Unwritten, plain, Json.arrange]

@[simp] theorem unwritten_ofText? (text : Option String) : ¬ (Value.ofText? text).Unwritten fault := by
  cases text <;> simp [Unwritten, ofText?, plain, Json.arrange]

theorem plainEntries_record (fields : List (String × Value)) :
    plainEntries (fields.map fun field => (.text field.1, field.2)) =
      (fields.map fun field => (field.1, field.2.plain)).map fun field => (.text field.1, field.2) := by
  induction fields with
  | nil => simp [plainEntries]
  | cons field rest ih => simp [plainEntries, plainEntry, ih]

/-- A record cannot be written down for the fault of one of its fields. -/
theorem Unwritten.of_record {fields : List (String × Value)}
    (lost : (Value.record fields).Unwritten fault) : ∃ field ∈ fields, field.2.Unwritten fault := by
  rw [Unwritten, record, plain, plainEntries_record, Json.arrange, Json.arrangeEntries_record] at lost
  rw [if_neg Bool.false_ne_true, List.map_map] at lost
  let entry (field : String × Value) : Value × Except Fault (Value × Value) :=
    (.text field.1, (Json.arrange false field.2.plain).map fun value => (.text field.1, value))
  change ((fields.map entry).mapM Prod.snd >>= fun entries => pure (Value.map entries)) = _ at lost
  cases all : (fields.map entry).mapM Prod.snd with
  | ok values =>
    rw [all] at lost
    cases lost
  | error other =>
    rw [all] at lost
    cases lost
    obtain ⟨_, item, _, _, split, -, fails⟩ := mapM_eq_error_iff.mp all
    have member : item ∈ fields.map entry := split ▸ List.mem_append_right _ List.mem_cons_self
    obtain ⟨field, listed, rfl⟩ := List.mem_map.mp member
    refine ⟨field, listed, ?_⟩
    cases here : Json.arrange false field.2.plain with
    | ok value => simp [entry, here, Except.map] at fails
    | error fault => simpa [entry, here, Except.map, Unwritten] using fails

end Value

/-- A field of an event cannot be written down. -/
def Untold (data : List (String × Value)) (fault : Value.Fault) : Prop :=
  ∃ field ∈ data, field.2.Unwritten fault

@[simp] theorem untold_nil {fault : Value.Fault} : ¬ Untold [] fault := by
  simp [Untold]

@[simp] theorem untold_cons {field : String × Value} {rest : List (String × Value)}
    {fault : Value.Fault} : Untold (field :: rest) fault ↔ field.2.Unwritten fault ∨ Untold rest fault := by
  simp [Untold]

/-- A number up to some bound cannot be written down. -/
def Overlong (most : Nat) (fault : Value.Fault) : Prop :=
  ∃ number : Nat, number ≤ most ∧ (Value.int number).Unwritten fault

theorem Overlong.mono {most more : Nat} {fault : Value.Fault} (long : Overlong most fault)
    (le : most ≤ more) : Overlong more fault := by
  obtain ⟨number, small, lost⟩ := long
  exact ⟨number, Nat.le_trans small le, lost⟩

/-- The size or the counters of some progress cannot be written down. -/
def Progress.Overlong (progress : Progress) (fault : Value.Fault) : Prop :=
  (Value.int progress.project.size).Unwritten fault ∨
    ∃ now, (progress.counters.toValue now).Unwritten fault

theorem Journal.untold_of_line {clock : Float} {moment kind : String} {data : List (String × Value)}
    {fault : Value.Fault} (lost : line clock moment kind data = .error fault) : Untold data fault := by
  have lost : (Value.record [("ts", .float clock), ("ts_iso", .text moment), ("kind", .text kind),
      ("data", Value.record data)]).Unwritten fault := by
    simp only [line, Value.Json.writeCompact] at lost
    rw [Value.Unwritten]
    generalize Value.Json.arrange _ _ = arranged at lost ⊢
    cases arranged with
    | ok _ => cases lost
    | error other => exact congrArg _ (Except.error.inj lost)
  have lost : Untold _ fault := lost.of_record
  exact (by simpa using lost : (Value.record data).Unwritten fault).of_record

namespace Engine

/-- An engine has gone through some more phases, the latest first, and nothing has changed otherwise
that a search depends on. -/
structure Goes (phases : List Phase) (before after : Engine) : Prop where
  trail : after.trail = phases ++ before.trail
  judge : after.judge = before.judge
  driver : after.driver = before.driver
  passes : after.passes = before.passes
  cancelled : after.world.cancelled = before.world.cancelled
  launches : after.world.launches = before.world.launches
  standing : after.standing = before.standing

namespace Goes

variable {more : List Phase} {first second third : Engine}

theorem refl (engine : Engine) : Goes [] engine engine :=
  ⟨rfl, rfl, rfl, rfl, rfl, rfl, rfl⟩

theorem trans (one : Goes phases first second) (other : Goes more second third) :
    Goes (more ++ phases) first third where
  trail := by rw [other.trail, one.trail, List.append_assoc]
  judge := other.judge.trans one.judge
  driver := other.driver.trans one.driver
  passes := other.passes.trans one.passes
  cancelled := other.cancelled.trans one.cancelled
  launches := other.launches.trans one.launches
  standing := other.standing.trans one.standing

theorem accepted (goes : Goes phases first second) (other : .accepting ∉ phases) :
    second.trail.count .accepting = first.trail.count .accepting := by
  rw [goes.trail, List.count_append, List.count_eq_zero_of_not_mem other, Nat.zero_add]

end Goes

/-- An event cannot be logged: the time cannot be told, or the log not be written to, or some of the
event not be written down. -/
def Unlogged (untold : Value.Fault → Prop) (failure : Failure) (after : Engine) : Prop :=
  ∃ journal, after.journal = some journal ∧
    (Moment.write after.world.clock = .error failure ∨
      (∃ bytes fault, after.world.disk.append journal.eventFile bytes = .error fault ∧
        failure = .disk fault) ∨
      ∃ fault, failure = .value fault ∧ untold fault)

/-- A snapshot of some progress could not be offered to the archive, and that was not only logged. -/
def Unkept (progress : Progress) (failure : Failure) (after : Engine) : Prop :=
  ∃ before standing, (keepSnapshot progress).runOn before = (.error failure, { after with standing })

theorem Unlogged.imp {untold other : Value.Fault → Prop} (lost : after.Unlogged untold failure)
    (so : ∀ fault, untold fault → other fault) : after.Unlogged other failure := by
  obtain ⟨journal, kept, moment | full | ⟨fault, told, lost⟩⟩ := lost
  · exact ⟨journal, kept, .inl moment⟩
  · exact ⟨journal, kept, .inr (.inl full)⟩
  · exact ⟨journal, kept, .inr (.inr ⟨fault, told, so fault lost⟩)⟩

theorem Unlogged.untitled {untold : Value.Fault → Prop} (lost : after.Unlogged untold failure) :
    failure.title? = none := by
  obtain ⟨_, -, moment | ⟨_, _, -, rfl⟩ | ⟨_, rfl, -⟩⟩ := lost
  · exact (confined_writeMoment _ failure moment).title?_eq_none
  · rfl
  · rfl

/-- What keeps a snapshot from being offered is no failure of the reduction. -/
theorem Unkept.untitled {progress : Progress} (lost : after.Unkept progress failure) :
    failure.title? = none := by
  obtain ⟨before, standing, ran⟩ := lost
  exact ((ends_error ran).mp (confined_keepSnapshot progress before trivial)).1.title?_eq_none

theorem log_unlogged (kind : String) (data : List (String × Value)) (engine : Engine) :
    (log kind data).Ends (fun _ _ => True) (Unlogged (Untold data)) engine := by
  rw [log, ends_get_bind]
  cases kept : engine.journal with
  | none => trivial
  | some journal =>
    dsimp only
    rw [onWorld, ends_within, Journal.event, ends_get_bind, ends_bind, ends_lift]
    refine ⟨fun moment _ => ?_, fun failure failed => ⟨journal, kept, .inl failed⟩⟩
    have appends : ∀ {bytes} {next : Unit → Step World Unit},
        (∀ world, (next ()).Ends (fun _ _ => True) (fun failure after =>
          ({ engine with world := after } : Engine).Unlogged (Untold data) failure) world) →
        ((World.onDisk (Disk.change (·.append journal.eventFile bytes))) >>= next).Ends
          (fun _ _ => True) (fun failure after =>
            ({ engine with world := after } : Engine).Unlogged (Untold data) failure)
          engine.world := by
      intro bytes next later
      rw [ends_bind, World.onDisk, ends_within, Disk.ends_change]
      exact ⟨fun _ _ => later _, fun fault full => ⟨journal, kept, .inr (.inl ⟨bytes, fault, full, rfl⟩)⟩⟩
    dsimp only
    split
    · refine appends fun world => ?_
      split <;> trivial
    · next fault lost =>
      exact appends fun world => ⟨journal, kept, .inr (.inr ⟨fault, rfl, Journal.untold_of_line lost⟩)⟩

theorem keepSnapshot_unkept (progress : Progress) (engine : Engine) :
    (keepSnapshot progress).Ends (fun _ _ => True) (Unkept progress) engine :=
  (Step.ends_self _ engine).imp (fun _ _ _ => trivial) fun _ after ran => ⟨engine, after.standing, ran⟩

section Acts

variable (engine : Engine)

/-- Logging leaves all of the world but what is on disk and what was printed. -/
theorem log_goes (kind : String) (data : List (String × Value)) :
    (log kind data).Ends (fun _ => Goes [] engine)
      (fun failure after => Goes [] engine after ∧ after.Unlogged (Untold data) failure) engine := by
  have kept : (log kind data).Keeps (Goes [] engine) := by
    refine Step.keeps_get.bind fun _ => ?_
    split
    · next journal _ =>
      have event : (journal.event kind data).Keeps (fun world =>
          world.cancelled = engine.world.cancelled ∧ world.launches = engine.world.launches) :=
        Journal.event_keeps_of (fun _ => keeps_within _ fun _ _ so => so)
          (fun _ _ _ so => so) kind data
      exact event.within (fun _ so => ⟨so.cancelled, so.launches⟩) fun _ _ so same =>
        { so with cancelled := same.1, launches := same.2 }
    · exact keeps_pure _
  exact ((kept engine (.refl engine)).and (log_unlogged kind data engine)).imp
    (fun _ _ ends => ends.1) fun _ _ => id

theorem enter_goes (phase : Phase) (data : List (String × Value)) :
    (enter phase data).Ends (fun _ => Goes [phase] engine)
      (fun failure after => Goes [phase] engine after ∧ after.Unlogged (Untold data) failure)
      engine := by
  rw [enter, ends_bind, ends_modify]
  have entered : Goes [phase] engine { engine with trail := phase :: engine.trail } :=
    ⟨rfl, rfl, rfl, rfl, rfl, rfl, rfl⟩
  refine (log_goes _ _ _).imp (fun _ _ => entered.trans) fun _ _ ends =>
    ⟨entered.trans ends.1, ends.2.imp fun fault untold => ?_⟩
  simpa using untold

theorem fail_goes {title : String} :
    (fail failure title).Ends (fun _ after => ∃ phases, Goes phases engine after)
      (fun other after => ∃ phases, Goes phases engine after ∧ after.Unlogged (fun _ => False) other)
      engine := by
  rw [fail, ends_get_bind, ends_ite]
  exact ⟨fun _ => (enter_goes engine _ _).imp (fun _ _ goes => ⟨_, goes⟩) fun _ _ ends =>
    ⟨_, ends.1, ends.2.imp (by simp)⟩, fun _ => ⟨[], .refl engine⟩⟩

theorem keepSnapshot_goes (progress : Progress) :
    (keepSnapshot progress).Ends (fun _ => Goes [] engine)
      (fun failure after => Goes [] engine after ∧ after.Unkept progress failure) engine := by
  have logs : ∀ kind data, (log kind data).Keeps (Goes [] engine) := fun kind data middle so =>
    (log_goes middle kind data).imp (fun _ _ => so.trans) fun _ _ ends => so.trans ends.1
  have offers : ∀ now, (onArchive (Archive.offer (fun _ => pure ()) progress.capture now)).Keeps
      (Goes [] engine) := fun _ => keeps_within _ fun _ _ so => { so with }
  have kept := keepSnapshot_ends_of (offers _ engine (.refl engine)) (fun _ so => { so with }) logs
  exact (kept.and (keepSnapshot_unkept progress engine)).imp
    (fun _ _ ends => ends.1) fun _ _ => id

/-- A run ends in a phase, unless the last snapshot cannot be offered or that it ends cannot be
logged. -/
theorem finish_goes (progress : Progress) (status : Phase) (initialSize : Int) :
    (finish progress status initialSize).Ends
      (fun result after => Goes [status] engine after ∧ result.status = status ∧
        result.project = progress.project ∧ result.counters = progress.counters ∧
        result.initialSize = initialSize)
      (fun failure after => Goes [] engine after ∧ after.Unkept progress failure ∨
        Goes [status] engine after ∧ after.Unlogged progress.Overlong failure) engine := by
  refine finish_ends_of ((keepSnapshot_goes engine progress).imp (fun _ _ => id) fun _ _ => .inl)
    (.refl engine) (fun now saved goes => ?_) initialSize
  refine (enter_goes saved status _).imp (fun _ _ => goes.trans)
    fun _ _ failed => .inr ⟨goes.trans failed.1, failed.2.imp fun fault untold => ?_⟩
  simp only [closing, untold_cons, untold_nil, or_false] at untold
  exact untold.imp_right fun lost => ⟨now, lost⟩

end Acts
end Engine

namespace Session

/-- A search has gone into some phases, or into none, and nothing has changed otherwise but for what
is noted. -/
structure Moves (phases : List Phase) (before after : Session) : Prop where
  engine : before.engine.Goes phases after.engine
  project : after.progress.project = before.progress.project
  worktree : after.worktree = before.worktree
  scenes : after.scenes = phases.map before.scene ++ before.scenes

namespace Moves

variable {first second third : Session}

theorem noting (one : Moves phases first second) (other : Moves [] second third) :
    Moves phases first third where
  engine := one.engine.trans other.engine
  project := other.project.trans one.project
  worktree := other.worktree.trans one.worktree
  scenes := other.scenes.trans one.scenes

theorem size (moves : Moves phases first second) : second.size = first.size :=
  congrArg Project.size moves.project

theorem cancelled (moves : Moves phases first second) : second.cancelled = first.cancelled :=
  moves.engine.cancelled

end Moves

variable (session : Session)

theorem log_moves (kind : String) (data : List (String × Value)) :
    (onEngine (Engine.log kind data)).Ends
      (fun _ after => Moves [] session after ∧ after.progress = session.progress)
      (fun failure after => (Moves [] session after ∧ after.progress = session.progress) ∧
        after.engine.Unlogged (Untold data) failure) session := by
  rw [onEngine, ends_within]
  exact (Engine.log_goes session.engine kind data).imp (fun _ _ goes => ⟨⟨goes, rfl, rfl, rfl⟩, rfl⟩)
    fun _ _ ends => ⟨⟨⟨ends.1, rfl, rfl, rfl⟩, rfl⟩, ends.2⟩

theorem enter_moves (phase : Phase) (data : List (String × Value)) : (enter phase data).Ends
      (fun _ after => Moves [phase] session after ∧ after.progress = session.progress)
      (fun failure after => (Moves [phase] session after ∧ after.progress = session.progress) ∧
        after.engine.Unlogged (Untold data) failure) session := by
  rw [enter, mark, ends_bind, ends_modify, onEngine, ends_within]
  exact (Engine.enter_goes session.engine phase data).imp
    (fun _ _ goes => ⟨⟨goes, rfl, rfl, rfl⟩, rfl⟩) fun _ _ ends => ⟨⟨⟨ends.1, rfl, rfl, rfl⟩, rfl⟩, ends.2⟩

theorem untold_origin {candidate : Candidate} (fault : Value.Fault) :
    ¬ Untold (origin candidate) fault := by
  simp [origin]

def countAccepted (counters : Counters) : Counters :=
  { counters with accepted := counters.accepted + 1 }

/-- A candidate is noted as accepted, if its trial told the right size. -/
theorem accept_moves (trial : Trial) : (accept trial).Ends
      (fun _ after => Moves [.accepting] session after ∧
        after.progress.counters = countAccepted session.progress.counters ∧
        (session.size : Int) = trial.sizeAfter)
      (fun failure after => (Moves [.accepting] session after ∧
        (after.progress.counters = session.progress.counters ∨
          after.progress.counters = countAccepted session.progress.counters)) ∧
        (trial.sizeAfter < trial.sizeBefore → (session.size : Int) = trial.sizeAfter →
          after.engine.Unlogged (Overlong trial.sizeBefore.toNat) failure ∨
            after.engine.Unkept after.progress failure)) session := by
  rw [accept]
  refine (enter_moves session .accepting _).bind ?_ fun _ _ failed =>
    ⟨⟨failed.1.1, .inl (congrArg Progress.counters failed.1.2)⟩, fun _ _ =>
      .inl (failed.2.imp fun fault untold => (untold_origin fault untold).elim)⟩
  rintro _ entered ⟨moves, progress⟩
  have size := moves.size
  rw [ends_get_bind, ends_ite]
  refine ⟨fun broken => ⟨⟨moves, .inl (congrArg Progress.counters progress)⟩, fun _ _ => by omega⟩,
    fun whole => ?_⟩
  have fits : (session.size : Int) = trial.sizeAfter := by omega
  rw [ends_bind, ends_modify]
  have counted : countAccepted entered.progress.counters = countAccepted session.progress.counters :=
    congrArg (fun progress => countAccepted progress.counters) progress
  have told : Moves [] entered { entered with
      engine := { entered.engine with unsaved := true }
      progress := { entered.progress with
        bookmark := trial.candidate.bookmark
        counters := countAccepted entered.progress.counters } } :=
    ⟨⟨rfl, rfl, rfl, rfl, rfl, rfl, rfl⟩, rfl, rfl, rfl⟩
  refine (log_moves _ _ _).bind ?_ fun _ after failed =>
    ⟨⟨moves.noting (told.noting failed.1.1), .inr ((congrArg Progress.counters failed.1.2).trans counted)⟩,
      fun smaller _ => .inl (failed.2.imp fun fault untold => ?_)⟩
  rintro _ logged ⟨more, same⟩
  have same := (congrArg Progress.counters same).trans counted
  rw [ends_get_bind, onEngine, ends_within]
  refine (Engine.keepSnapshot_goes logged.engine logged.progress).imp ?_ ?_
  · intro _ after goes
    exact ⟨moves.noting (told.noting (more.noting ⟨goes, rfl, rfl, rfl⟩)), same, fits⟩
  · rintro failure after ⟨goes, lost⟩
    exact ⟨⟨moves.noting (told.noting (more.noting ⟨goes, rfl, rfl, rfl⟩)), .inr same⟩, fun _ _ => .inr lost⟩
  · simp only [origin, List.cons_append, List.nil_append, untold_cons, untold_nil,
      Value.unwritten_text, Value.unwritten_ofText?, Value.unwritten_bool, false_or, or_false] at untold
    rcases untold with lost | lost
    · exact ⟨entered.size, by omega, lost⟩
    · exact ⟨(trial.sizeBefore - entered.size).toNat, by omega, by rwa [Int.toNat_of_nonneg (by omega)]⟩

/-- Why noting that a candidate was rejected fails: it cannot be logged or, without a wish to stop, the
judge has had enough or cannot tell whether it has. -/
inductive Balks (cancelled : Bool) (failure : Failure) (after : Engine) : Prop where
  | unlogged : after.Unlogged (fun _ => False) failure → Balks cancelled failure after
  | tired : cancelled = false → failure.IsAmong ["OracleAbortError"] → Balks cancelled failure after

theorem reject_moves (trial : Trial) : (reject trial).Ends
      (fun _ after => Moves [.rejecting] session after ∧
        after.progress.counters = countRejected trial session.progress.counters)
      (fun failure after => Moves [.rejecting] session after ∧
        (after.progress.counters = session.progress.counters ∧
            after.engine.Unlogged (fun _ => False) failure ∨
          after.progress.counters = countRejected trial session.progress.counters ∧
            Balks session.cancelled failure after.engine)) session := by
  rw [reject]
  refine (enter_moves session .rejecting _).bind ?_ fun _ _ failed =>
    ⟨failed.1.1, .inl ⟨congrArg Progress.counters failed.1.2, failed.2.imp untold_origin⟩⟩
  rintro _ entered ⟨moves, progress⟩
  rw [ends_bind, ends_modify]
  have told : Moves [] entered { entered with
      progress := { entered.progress with
        bookmark := trial.candidate.bookmark
        counters := countRejected trial entered.progress.counters } } :=
    ⟨⟨rfl, rfl, rfl, rfl, rfl, rfl, rfl⟩, rfl, rfl, rfl⟩
  have counted : countRejected trial entered.progress.counters =
      countRejected trial session.progress.counters :=
    congrArg (fun progress => countRejected trial progress.counters) progress
  refine (log_moves _ _ _).bind ?_ fun _ after failed => ⟨moves.noting (told.noting failed.1.1),
    .inr ⟨(congrArg Progress.counters failed.1.2).trans counted, .unlogged (failed.2.imp ?_)⟩⟩
  rintro _ logged ⟨more, same⟩
  have moves := moves.noting (told.noting more)
  have counted := (congrArg Progress.counters same).trans counted
  rw [ends_get_bind, ends_ite]
  refine ⟨fun _ => ⟨moves, counted⟩, fun going => ?_⟩
  have tired : ∀ failure : Failure, failure.IsAmong ["OracleAbortError"] →
      Balks session.cancelled failure logged.engine := fun failure among =>
    .tired (moves.cancelled ▸ Bool.eq_false_iff.mpr going) among
  rw [ends_bind, ends_lift]
  refine ⟨fun exceeded _ => ?_, fun failure asked => ⟨moves, .inr ⟨counted, tired failure ?_⟩⟩⟩
  · rw [ends_ite]
    refine ⟨fun _ => ⟨moves, .inr ⟨counted, tired _ ?_⟩⟩, fun _ => ⟨moves, counted⟩⟩
    exact Failure.isAmong_of_some rfl List.mem_cons_self
  · exact Failure.isAmong_of_none (confined_mapError (fun _ => rfl) failure asked).title?_eq_none
  · simp [origin]

end Session
end Whittle
