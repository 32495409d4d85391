import Whittle.Proofs.Confined
import Whittle.Proofs.Trial

/-!
What a trial comes to, wherever it is held. Nothing is asked of the disk or of the driver here: as
long as no candidate is pending and each file of the project is listed once, a trial without hooks
ends in one of four ways (`Trial.Ended`) or fails in one of four (`Trial.Failed`), and each of them
tells what became of the project, of the pending files, of the judge and of the wish to stop.
-/

namespace Whittle

variable {host : Host} {failure : Failure} {watching : Bool} {world after : World} {driver : String}
  {hearing : Hearing}

namespace Host

/-- The driver fails with this when it is started in some way. -/
def Raises (host : Host) (failure : Failure) : Prop :=
  ∃ root driver count disk, (host.launch root driver count disk).start = .failed failure

/-- A failure has one of these titles or none, if the driver does not fail with it. -/
def Admits (host : Host) (titles : List String) (failure : Failure) : Prop :=
  host.Raises failure ∨ failure.IsAmong titles

namespace Admits

variable {titles more : List String}

theorem of_none (untitled : failure.title? = none) : host.Admits titles failure :=
  .inr (Failure.isAmong_of_none untitled)

/-- A run of the driver without a verdict fails as its start does, or for a limit that is none. -/
theorem of_start {root : Path} {count : Nat} {disk : Disk}
    (starts : (host.launch root driver count disk).start = .failed failure ∨
      ∃ fault, failure = .value fault) :
    host.Admits titles failure := by
  rcases starts with starts | ⟨fault, rfl⟩
  · exact .inl ⟨_, _, _, _, starts⟩
  · exact of_none rfl

theorem mono (admits : host.Admits titles failure) (all : titles ⊆ more) : host.Admits more failure :=
  admits.imp_right (·.mono all)

/-- A failure under none of these titles comes from the driver. -/
theorem raises {title : String} (admits : host.Admits titles failure)
    (titled : failure.title? = some title) (other : title ∉ titles) : host.Raises failure :=
  admits.resolve_right fun among => other (among title titled)

end Admits
end Host

/-! ### Parts of a trial -/

namespace Bench

/-- No candidate is pending, and each file of the project is listed once. -/
structure IsSound (bench : Bench) : Prop where
  clean : bench.worktree.pending = []
  proper : bench.project.files.IsProper

/-- Nothing has happened but on disk and in the working tree. -/
structure Remains (before after : Bench) : Prop where
  project : after.project = before.project
  judge : after.judge = before.judge
  cancelled : after.world.cancelled = before.world.cancelled

/-- Taking a candidate back fails so, on the disk that a run of the driver has left. -/
def Unrestored (host : Host) (driver : String) (found : Disk) (failure : Failure) (bench : Bench) :
    Prop :=
  let left := host.launch bench.worktree.root driver bench.world.launches found
  ((Worktree.restore bench.project.contents).runOn (bench.worktree, left.disk)).1 = .error failure

variable {first second third : Bench}

theorem Remains.trans (one : first.Remains second)
    (other : second.Remains third) : first.Remains third :=
  ⟨other.project.trans one.project, other.judge.trans one.judge,
    other.cancelled.trans one.cancelled⟩

/-- A run of the driver has led to a verdict, and nothing else has happened but on disk and in the
working tree. -/
structure Heard (before : Bench) (hearing : Hearing) (after : Bench) : Prop where
  project : after.project = before.project
  judge : after.judge = before.judge.hears hearing
  cancelled : after.world.cancelled = hearing.cancelled
  stays : before.world.cancelled = true → hearing.cancelled = true

theorem Remains.heard (one : first.Remains second)
    (other : second.Heard hearing third) : first.Heard hearing third :=
  ⟨other.project.trans one.project, one.judge ▸ other.judge, other.cancelled,
    fun stop => other.stays (one.cancelled.trans stop)⟩

theorem Heard.remains
    (one : first.Heard hearing second) (other : second.Remains third) : first.Heard hearing third :=
  ⟨other.project.trans one.project, other.judge.trans one.judge,
    other.cancelled.trans one.cancelled, one.stays⟩

/-- Taking a candidate back leaves no file pending, or fails as writing does. -/
theorem restore_remains (bench : Bench) :
    restore.Ends (fun _ after => bench.Remains after ∧ after.worktree.pending = [])
      (fun failure after => bench.Remains after ∧ failure.IsAmong ["FilesystemWriteError"]) bench := by
  have clears : ∀ site, (Worktree.restore bench.project.contents).Ends
      (fun _ after => after.1.pending = []) (fun _ _ => True) site := by
    intro site
    rw [Worktree.restore, ends_get_bind, ends_bind]
    exact ends_of_forall (fun _ _ => rfl) fun _ _ => trivial
  rw [restore, ends_get_bind, onWorktree, ends_within]
  refine ((clears _).and
    (Worktree.confined_restore Disk.isLasting_true bench.project.contents _ trivial)).imp ?_ ?_
  · rintro _ site ⟨clean, -⟩
    exact ⟨⟨rfl, rfl, rfl⟩, clean⟩
  · rintro failure site ⟨-, among, -⟩
    exact ⟨⟨rfl, rfl, rfl⟩, among⟩

/-- A candidate that cannot be taken back stays pending. -/
theorem restore_stays (bench : Bench) : restore.Ends (fun _ _ => True)
      (fun failure after => after.worktree = bench.worktree ∧
        after.world.launches = bench.world.launches ∧
        ((Worktree.restore bench.project.contents).runOn (bench.worktree, bench.world.disk)).1 =
          .error failure) bench := by
  have stays : ∀ site, (Worktree.restore bench.project.contents).Ends (fun _ _ => True)
      (fun _ after => after.1 = site.1) site := by
    intro site
    rw [Worktree.restore, ends_get_bind, ends_bind, Worktree.onDisk, ends_within]
    exact ends_of_forall (fun _ _ => trivial) fun _ _ => rfl
  rw [restore, ends_get_bind, onWorktree, ends_within]
  refine ((stays _).and (Step.ends_self _ _)).imp (fun _ _ _ => trivial) ?_
  rintro failure site ⟨same, ran⟩
  exact ⟨same, rfl, by rw [ran]⟩

theorem Unrestored.isAmong {found : Disk} {failure : Failure}
    (lost : first.Unrestored host driver found failure) :
    failure.IsAmong ["FilesystemWriteError"] := by
  rcases ran : (Worktree.restore first.project.contents).runOn _ with ⟨other | _, site⟩
  · rw [Unrestored, ran] at lost
    cases lost
    exact ((ends_error ran).mp (Worktree.confined_restore Disk.isLasting_true _ _ trivial)).1
  · rw [Unrestored, ran] at lost
    cases lost

end Bench

namespace Worktree

/-- Writing a candidate where none is pending fails as writing does. -/
theorem write_among {fullAfter room : Option Nat} {contents : Listing (Option Bytes)}
    {site : Worktree × Disk} (clean : site.1.pending = []) :
    (write fullAfter contents room).Ends (fun _ _ => True)
      (fun failure _ => failure.IsAmong ["FilesystemWriteError"]) site := by
  rw [write, ends_get_bind, ends_ite]
  refine ⟨fun is => by simp [dirty, clean] at is, fun _ => ?_⟩
  rw [ends_bind, note, ends_modify]
  refine (confined_onDisk (confined_putFiles Disk.isLasting_true _ _) _ trivial).bind ?_
    fun _ _ failed => failed.1
  intro _ put _
  rw [ends_ite]
  refine ⟨fun _ => isAmong_write _, fun _ => ?_⟩
  rw [ends_bind, note, ends_modify, ends_ite]
  exact ⟨fun _ => isAmong_write _, fun _ => trivial⟩

end Worktree

namespace Trial

variable {bench : Bench} {buffers : Project.Buffers}

/-- Writing a candidate where none is pending changes the disk and the working tree. -/
theorem materialize_remains (clean : bench.worktree.pending = []) :
    (materialize host buffers).Ends (fun _ after => bench.Remains after)
      (fun failure after => bench.Remains after ∧ failure.IsAmong ["FilesystemWriteError"]) bench := by
  rw [materialize, ends_get_bind, ends_bind, ends_attempt,
    Bench.onWorktree, ends_within]
  refine Step.Ends.imp (Worktree.write_among clean) (fun _ site _ => ⟨rfl, rfl, rfl⟩) ?_
  intro failure site among
  have thrown : ∀ after, bench.Remains after → (throw failure : Step Bench Unit).Ends
      (fun _ after => bench.Remains after)
      (fun failure after => bench.Remains after ∧ failure.IsAmong ["FilesystemWriteError"]) after :=
    fun _ remains => ⟨remains, among⟩
  have remains : bench.Remains
      { bench with worktree := site.1, world := { bench.world with disk := site.2 } } := ⟨rfl, rfl, rfl⟩
  dsimp only
  split
  · exact (Bench.restore_remains _).bind (fun _ after taken => thrown after (remains.trans taken.1))
      fun _ _ failed => ⟨remains.trans failed.1, failed.2⟩
  · exact thrown _ remains

/-- Judging a candidate leads to a verdict. If the driver fails then that is counted all the same, and
the candidate is taken back, or at least that was tried. -/
theorem judge_heard (bench : Bench) : (judge host driver {}).Ends
      (fun verdict after => ∃ hearing, hearing.verdict = verdict ∧ bench.Heard hearing after ∧
        after.world.disk =
          (host.launch after.worktree.root driver after.world.launches hearing.disk).disk)
      (fun failure after => after.project = bench.project ∧ after.judge = bench.judge.called ∧
        (bench.world.cancelled = true → after.world.cancelled = true) ∧
        host.Admits ["FilesystemWriteError"] failure) bench := by
  rw [judge, ends_bind, ends_attempt, ends_bind]
  refine Bench.ends_judgeCandidate fun _ _ ran => ?_
  cases ran with
  | heard _ disk stays launches => exact ⟨_, rfl, ⟨rfl, rfl, rfl, stays⟩, by rw [disk, launches]⟩
  | unheard _ stays starts =>
    refine (Bench.restore_remains _).bind ?_ ?_
    · rintro _ after ⟨remains, -⟩
      exact ⟨remains.project, remains.judge, fun stop => remains.cancelled.trans (stays stop),
        .of_start starts⟩
    · rintro _ after ⟨remains, among⟩
      exact ⟨remains.project, remains.judge, fun stop => remains.cancelled.trans (stays stop),
        .inr among⟩

/-! ### Trials -/

/-- A trial of a candidate has ended. -/
inductive Ended (host : Host) (before : Bench) (candidate : Candidate) : Trial → Bench → Prop where
  | unparsed {path reason : String} {offset : Option Int} {notes : List String} :
    before.project.apply host.parsers candidate = .error (.candidateUnparsed path reason offset) →
    Ended host before candidate
      { committed := false, candidate, sizeBefore := before.project.size
        sizeAfter := before.project.size, parseFailed := true, notes } before
  | notSmaller {buffers : Project.Buffers} {notes : List String} :
    before.project.apply host.parsers candidate = .ok buffers → before.project.size ≤ buffers.size →
    Ended host before candidate
      { committed := false, candidate, sizeBefore := before.project.size
        sizeAfter := before.project.size, notes } before
  | rejected {buffers : Project.Buffers} {hearing : Hearing} {notes : List String} {after : Bench} :
    before.project.apply host.parsers candidate = .ok buffers → buffers.size < before.project.size →
    before.Heard hearing after → hearing.verdict.reproduces = false → after.worktree.pending = [] →
    Ended host before candidate
      { committed := false, candidate, verdict := some hearing.verdict
        sizeBefore := before.project.size, sizeAfter := before.project.size, notes } after
  | accepted {buffers : Project.Buffers} {hearing : Hearing} {judged after : Bench} :
    before.project.apply host.parsers candidate = .ok buffers → buffers.size < before.project.size →
    before.Heard hearing judged → hearing.verdict.reproduces = true →
    before.project.commit buffers = (.ok (), after.project) → after.judge = judged.judge →
    after.world = judged.world → after.worktree.pending = [] →
    Ended host before candidate
      { committed := true, candidate, verdict := some hearing.verdict
        sizeBefore := before.project.size, sizeAfter := buffers.size } after

/-- A trial of a candidate has failed. -/
inductive Failed (host : Host) (driver : String) (before : Bench) (candidate : Candidate)
    (failure : Failure) : Bench → Prop where
  | unapplied : before.project.apply host.parsers candidate = .error failure →
    failure.title? = none → Failed host driver before candidate failure before
  | unwritten {after : Bench} : before.Remains after → failure.IsAmong ["FilesystemWriteError"] →
    Failed host driver before candidate failure after
  | unheard {after : Bench} : after.project = before.project → after.judge = before.judge.called →
    (before.world.cancelled = true → after.world.cancelled = true) →
    host.Admits ["FilesystemWriteError"] failure →
    Failed host driver before candidate failure after
  | unrestored {hearing : Hearing} {after : Bench} :
    before.Heard hearing after → hearing.verdict.reproduces = false →
    after.Unrestored host driver hearing.disk failure →
    Failed host driver before candidate failure after

theorem run_judged {candidate : Candidate} {judged : Bench} (sound : bench.IsSound)
    (applied : bench.project.apply host.parsers candidate = .ok buffers)
    (smaller : buffers.size < bench.project.size) (heard : bench.Heard hearing judged)
    (left : judged.world.disk =
      (host.launch judged.worktree.root driver judged.world.launches hearing.disk).disk) :
    (if hearing.verdict.reproduces then do
        Bench.accept buffers
        return {
          committed := true, candidate, verdict := some hearing.verdict
          sizeBefore := bench.project.size, sizeAfter := buffers.size }
      else do
        Bench.restore
        return {
          committed := false, candidate, verdict := some hearing.verdict
          sizeBefore := bench.project.size, sizeAfter := bench.project.size
          notes := [noteOn hearing.verdict] } : Step Bench Trial).Ends
      (Ended host bench candidate) (Failed host driver bench candidate) judged := by
  rw [ends_ite]
  constructor
  · intro reproduces
    obtain ⟨project, committed, -⟩ :=
      Project.commit_of_suits sound.proper (Project.suits_of_apply applied)
    rw [ends_bind, Bench.ends_accept_of (heard.project ▸ committed)]
    exact .accepted applied smaller heard reproduces committed rfl rfl rfl
  · intro not
    have not := Bool.eq_false_iff.mpr not
    refine ((Bench.restore_remains judged).and (Bench.restore_stays judged)).bind ?_ ?_
    · rintro _ after ⟨⟨remains, clean⟩, -⟩
      exact .rejected applied smaller (heard.remains remains) not clean
    · rintro failure after ⟨⟨remains, -⟩, worktree, launches, lost⟩
      refine .unrestored (heard.remains remains) not ?_
      rw [Bench.Unrestored, worktree, launches, remains.project, ← left]
      exact lost

/-- A trial without hooks ends in one of these ways, or fails in one of them. -/
theorem run_ended (candidate : Candidate) (sound : bench.IsSound) :
    (run host driver {} candidate).Ends (Ended host bench candidate)
      (Failed host driver bench candidate) bench := by
  have confined := bench.project.confined_apply host.parsers candidate
  rw [run, ends_get_bind]
  dsimp only
  split
  · next failure failed =>
    split
    · exact .unparsed failed
    · next other =>
      refine .unapplied failed ((confined failure failed).title?_of_ne fun is => ?_)
      obtain ⟨path, reason, offset, rfl⟩ := Failure.title?_eq_candidate_iff.mp is
      exact other path reason offset rfl
  · next buffers applied =>
    rw [ends_ite]
    refine ⟨fun larger => .notSmaller applied larger, fun smaller => ?_⟩
    rw [ends_bind, Bench.onDisk, ends_within, ends_pure]
    refine (materialize_remains sound.clean).bind ?_ fun _ _ failed => .unwritten failed.1 failed.2
    intro _ written remains
    refine (judge_heard written).bind ?_ ?_
    · rintro _ judged ⟨hearing, rfl, heard, left⟩
      exact run_judged sound applied (Nat.lt_of_not_le smaller) (remains.heard heard) left
    · rintro failure after ⟨project, called, stays, cause⟩
      refine .unheard (project.trans remains.project) (remains.judge ▸ called) ?_ cause
      exact fun stop => stays (remains.cancelled.trans stop)

end Trial

/-! ### What trials keep -/

/-- A working tree at a root, with pending files of some names, on a disk of which something holds. -/
structure Worktree.Holds (root : Path) (names : String → Prop) (property : Disk → Prop)
    (site : Worktree × Disk) : Prop where
  disk : property site.2
  root : site.1.root = root
  pending : ∀ name ∈ site.1.pending, names name

/-- A bench at a root, whose tracked files have some of these names. -/
structure Bench.Holds (root : Path) (names : String → Prop) (property : Judge → Disk → Prop)
    (bench : Bench) : Prop where
  site : Worktree.Holds root names (property bench.judge) (bench.worktree, bench.world.disk)
  proper : bench.project.files.IsProper
  tracked : ∀ name, bench.project.tracks name = true → names name

section Holds

open List

variable {root : Path} {names : String → Prop}

namespace Worktree

variable {property : Disk → Prop}
  (puts : ∀ name wanted, names name → (putFile root name wanted).Keeps property)

include puts

theorem putFiles_keeps {files : List (String × Option Bytes)} (named : ∀ file ∈ files, names file.1) :
    (onDisk (putFiles root files)).Keeps (Holds root names property) := by
  have put : (putFiles root files).Keeps property := by
    induction files with
    | nil => exact keeps_pure _
    | cons file rest ih =>
      rw [putFiles_cons]
      obtain ⟨here, later⟩ := forall_mem_cons.mp named
      exact (puts file.1 file.2 here).bind fun _ => ih later
  exact put.within (fun _ so => so.disk) fun _ _ so disk => { so with disk }

theorem write_keeps {fullAfter room : Option Nat} {contents : Listing (Option Bytes)}
    (named : ∀ name ∈ contents.names, names name) :
    (write fullAfter contents room).Keeps (Holds root names property) := by
  have named : ∀ file ∈ ordered contents, names file.1 := by
    intro file member
    obtain ⟨name, listed, rfl⟩ := mem_map.mp member
    exact named name (mem_sortNames.mp listed)
  rintro ⟨worktree, disk⟩ so
  rw [write, ends_get_bind, ends_ite]
  refine ⟨fun _ => so, fun _ => ?_⟩
  rw [ends_bind, note, ends_modify]
  have pends : Holds root names property
      ({ worktree with pending := (ordered contents).map Prod.fst }, disk) :=
    { so with pending := forall_mem_map.mpr named }
  refine (Step.Keeps.bind ?_ fun _ => (keeps_throw _).ite ?_) _ pends
  · rw [show worktree.root = root from so.root]
    exact putFiles_keeps puts fun file member => named file (mem_of_mem_take member)
  · exact Step.Keeps.bind (keeps_modify fun _ so => { so with }) fun _ =>
      (keeps_throw _).ite (keeps_pure _)

theorem restore_keeps (accepted : Listing Bytes) :
    (restore accepted).Keeps (Holds root names property) := by
  rintro ⟨worktree, disk⟩ so
  rw [restore, ends_get_bind]
  refine (Step.Keeps.bind ?_ fun _ => keeps_modify fun _ so => ?_) _ so
  · rw [show worktree.root = root from so.root]
    exact putFiles_keeps puts (forall_mem_map.mpr so.pending)
  · exact { so with pending := fun _ member => by cases member }

end Worktree

namespace Trial

variable {property : Judge → Disk → Prop}

theorem onWorktree_keeps {step : Step (Worktree × Disk) Unit}
    (keeps : ∀ judge, step.Keeps (Worktree.Holds root names (property judge))) :
    (Bench.onWorktree step).Keeps (Bench.Holds root names property) :=
  fun bench so => (ends_within _ _ _).mpr ((keeps bench.judge _ so.site).mono
    fun _ site => { so with site })

variable
  (puts : ∀ judge name wanted, names name → (Worktree.putFile root name wanted).Keeps (property judge))
  (hears : ∀ judge disk, property judge disk →
    property judge.called disk ∧ ∀ hearing, property (judge.hears hearing) disk)

include puts

theorem restore_keeps : Bench.restore.Keeps (Bench.Holds root names property) :=
  keeps_get.bind fun _ => onWorktree_keeps fun judge => Worktree.restore_keeps (puts judge) _

include hears

/-- A trial keeps what is kept when files of these names are put and when the driver is heard. -/
theorem run_keeps (still : host.SparesDisk) (candidate : Candidate) :
    (run host driver {} candidate).Keeps (Bench.Holds root names property) := by
  intro bench so
  rw [run, ends_get_bind]
  dsimp only
  split
  · split <;> exact so
  · next buffers applied =>
    have suits := Project.suits_of_apply applied
    have writes : (materialize host buffers).Keeps (Bench.Holds root names property) := by
      refine keeps_get.bind fun _ => (onWorktree_keeps fun judge => Worktree.write_keeps
        (puts judge) fun name member => so.tracked name (suits.tracked name member)).attempt.bind ?_
      intro outcome
      split
      · exact keeps_pure _
      · split
        · exact (restore_keeps puts).bind fun _ => keeps_throw _
        · exact keeps_throw _
    have heard : (Bench.judgeCandidate host driver).Keeps (Bench.Holds root names property) := by
      intro bench so
      refine Bench.ends_judgeCandidate fun _ _ ran => ?_
      have hears := hears bench.judge bench.world.disk so.site.disk
      rw [← still bench.worktree.root driver (bench.world.launches + 1) bench.world.disk] at hears
      cases ran with
      | heard _ disk => exact { so with site := { so.site with disk := disk.symm ▸ hears.2 _ } }
      | unheard disk => exact { so with site := { so.site with disk := disk.symm ▸ hears.1 } }
    have judges : (judge host driver {}).Keeps (Bench.Holds root names property) := by
      have cleans : (Bench.onDisk (pure ())).Keeps (Bench.Holds root names property) := fun _ so => so
      refine (heard.bind fun _ => cleans.bind fun _ => keeps_pure _).attempt.bind fun outcome => ?_
      split
      · exact keeps_pure _
      · exact (restore_keeps puts).bind fun _ => keeps_throw _
    rw [ends_ite]
    refine ⟨fun _ => so, fun _ => ?_⟩
    rw [ends_bind, Bench.onDisk, ends_within, ends_pure]
    refine ((writes _ so).and (materialize_keeps_project host buffers _ rfl)).bind ?_ fun _ _ => And.left
    rintro _ written ⟨so, same⟩
    refine ((judges written so).and (judge_keeps_project host driver {} written same)).bind ?_
      fun _ _ => And.left
    rintro verdict judged ⟨so, same⟩
    rw [ends_ite]
    refine ⟨fun _ => ?_, fun _ => ((restore_keeps puts).bind fun _ => keeps_pure _) _ so⟩
    -- the tracked files after a commit were tracked before it
    rw [← same] at suits
    obtain ⟨changed, committed, becomes, -⟩ := Project.commit_of_suits so.proper suits
    rw [ends_bind, Bench.ends_accept_of committed]
    exact ⟨{ so.site with pending := fun _ member => by cases member }, becomes.proper,
      fun name tracked => so.tracked name (Project.tracks_of_becomes suits becomes tracked)⟩

end Trial

end Holds
end Whittle
