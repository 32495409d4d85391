import Whittle.Proofs.Bench
import Whittle.Proofs.Layout
import Whittle.Proofs.Project

/-!
Trials as transactions. On a disk that holds the accepted project, a trial ends in one of
two ways: it commits, and then the driver reproduced the bug on a disk that held the
candidate, which is now the accepted project and on disk; or project and disk are as they
were, however the trial came to an end.
-/

namespace Whittle

open List

variable {layout : Layout} {room : Option Nat} {shown : String → Option Bytes} {before : Disk}

/-! ### Working trees -/

namespace Worktree

variable {worktree : Worktree} {disk : Disk}

def wanted (contents : Listing (Option Bytes)) (name : String) : Option Bytes :=
  (contents.get? name).getD none

def spaced (contents : Listing (Option Bytes)) (room : Option Nat) : List String :=
  (sortNames (contents.names)).take (room.getD (contents.names).length)

theorem length_ordered (contents : Listing (Option Bytes)) :
    (ordered contents).length = (contents.names).length := by
  rw [ordered, length_map, sortNames]
  exact (sortBy_perm _).length_eq

variable {contents : Listing (Option Bytes)}

theorem spaced_eq (enough : ¬ room.getD (ordered contents).length < (ordered contents).length) :
    spaced contents room = sortNames (contents.names) := by
  rw [length_ordered] at enough
  refine take_of_length_le ?_
  rw [sortNames, (sortBy_perm _).length_eq]
  omega

theorem overlay_eq (name : String) :
    (if name ∈ sortNames (contents.names) then wanted contents name else shown name) =
      Listing.overlay contents shown name := by
  simp only [mem_sortNames, Listing.mem_names_iff, Listing.overlay, wanted]
  cases contents.get? name <;> simp

/-- Writing a candidate puts it on disk, or fails with as many of its files written as there is room
for. -/
theorem write_ends {fullAfter : Option Nat}
    (root : worktree.root = layout.root) (clean : worktree.pending = []) (fits : layout.Fits disk)
    (members : ∀ name ∈ sortNames (contents.names), name ∈ layout.names) :
    (write fullAfter contents room).Ends
      (fun _ site => (site.1.root = layout.root ∧
        site.1.pending = sortNames (contents.names) ∧ layout.Alters disk site.2) ∧
        layout.Writes (sortNames (contents.names)) (wanted contents) disk site.2 ∧
        spaced contents room = sortNames (contents.names))
      (fun failure site => (site.1.root = layout.root ∧
        site.1.pending = sortNames (contents.names) ∧ layout.Alters disk site.2) ∧
        layout.Touches (sortNames (contents.names)) disk site.2 ∧
        (layout.Writable → (∃ fault, failure = .write fault) ∧
          layout.Writes (spaced contents room) (wanted contents) disk site.2)) (worktree, disk) := by
  have pending : (ordered contents).map Prod.fst = sortNames (contents.names) := by
    rw [ordered, map_map]
    exact map_id _
  have files : (ordered contents).take (room.getD (ordered contents).length) =
      (spaced contents room).map fun name => (name, wanted contents name) := by
    rw [spaced, map_take, length_ordered]
    rfl
  have some : spaced contents room ⊆ sortNames (contents.names) :=
    fun name member => mem_of_mem_take member
  rw [write, ends_get_bind]
  rw [if_neg (by simp [dirty, clean]), ends_bind, note, ends_modify]
  rw [ends_bind, onDisk, ends_within, pending, files, root]
  refine (Layout.putFiles_ends fits (fun name member => members name (some member))
    (wanted contents)).imp ?_ ?_
  · rintro _ after ⟨writes, alters⟩
    have full : layout.Touches (sortNames (contents.names)) disk after ∧ (layout.Writable →
        (∃ fault, Failure.write .deviceFull = .write fault) ∧
          layout.Writes (spaced contents room) (wanted contents) disk after) :=
      ⟨writes.mono some, fun _ => ⟨⟨_, rfl⟩, writes⟩⟩
    dsimp only
    split
    · exact ⟨⟨rfl, rfl, alters⟩, full⟩
    · next enough =>
      have all := spaced_eq enough
      rw [ends_bind, note, ends_modify]
      split
      · exact ⟨⟨rfl, rfl, alters⟩, full⟩
      · exact ⟨⟨rfl, rfl, alters⟩, all ▸ writes, all⟩
  · rintro _ after ⟨touches, alters, impossible⟩
    exact ⟨⟨rfl, rfl, alters⟩, touches.mono some, fun writable => absurd writable impossible⟩

/-- Putting the accepted bytes of the pending files back writes them. -/
theorem restore_ends {accepted : Listing Bytes} (root : worktree.root = layout.root)
    (inside : ∀ name ∈ worktree.pending, name ∈ layout.names) (fits : layout.Fits disk) :
    (restore accepted).Ends
      (fun _ site => site.1.root = layout.root ∧ site.1.pending = [] ∧ layout.Alters disk site.2 ∧
        layout.Writes worktree.pending (accepted.get?) disk site.2)
      (fun _ _ => ¬ layout.Writable) (worktree, disk) := by
  rw [restore, ends_get_bind]
  rw [ends_bind, onDisk, ends_within, root]
  exact (Layout.putFiles_ends fits inside (accepted.get?)).imp
    (fun _ _ put => ⟨root, rfl, put.2, put.1⟩) fun _ _ failed => failed.2.2

end Worktree

/-! ### Trials -/

/-- How the disk may change in time, beside what a layout's own files do. -/
structure Layout.Drift (layout : Layout) where
  drifts : Disk → Disk → Prop
  alters : ∀ {before after}, layout.Fits before → layout.Fits after →
    layout.Alters before after → drifts before after
  trans : ∀ {first second third}, drifts first second → drifts second third → drifts first third

/-- The disk may change in any way. -/
def Layout.Drift.any (layout : Layout) : layout.Drift where
  drifts _ _ := True
  alters _ _ _ := trivial
  trans _ _ := trivial

/-- The disk may change in the files of a layout only. -/
def Layout.Drift.files (layout : Layout) : layout.Drift where
  drifts := layout.Alters
  alters _ _ := id
  trans := .trans

/-- Someone else has left the files of a layout alone. -/
structure Layout.Spares (layout : Layout) (drift : layout.Drift) (before after : Disk) : Prop where
  fits : layout.Fits after
  same : ∀ name ∈ layout.names, after.get? (layout.seat name) = before.get? (layout.seat name)
  drifts : drift.drifts before after

theorem Layout.Spares.touches {drift : layout.Drift} {after : Disk}
    (spares : layout.Spares drift before after) : layout.Touches [] before after :=
  ⟨spares.fits, fun name member _ => spares.same name member⟩

theorem Layout.Spares.shows {drift : layout.Drift} {after : Disk} (spares : layout.Spares drift before after)
    (shows : layout.Shows before shown) : layout.Shows after shown :=
  fun name member => (spares.touches.bytes member not_mem_nil).trans (shows name member)

/-- Driver and hooks leave the files of a layout alone. -/
structure Layout.Undisturbed (layout : Layout) (drift : layout.Drift) (host : Host) (driver : String)
    (hooks : Hooks) : Prop where
  launch : ∀ count disk, layout.Fits disk →
    layout.Spares drift disk (host.launch layout.root driver count disk).disk
  prepare : ∀ disk, layout.Fits disk → layout.Spares drift disk (hooks.prepare.runOn disk).2
  cleanup : ∀ reproduces disk, layout.Fits disk →
    layout.Spares drift disk ((hooks.cleanup reproduces).runOn disk).2

def Host.SparesDisk (host : Host) : Prop :=
  ∀ root driver count disk, (host.launch root driver count disk).disk = disk

/-- A driver that leaves the disk alone leaves the files of a layout alone. -/
theorem Layout.Undisturbed.of_still {host : Host} (still : host.SparesDisk) (layout : Layout)
    (drift : layout.Drift) (driver : String) : layout.Undisturbed drift host driver {} := by
  have alone : ∀ disk, layout.Fits disk → layout.Spares drift disk disk :=
    fun disk fits => ⟨fits, fun _ _ => rfl, drift.alters fits fits (.refl layout disk)⟩
  refine ⟨fun count disk fits => ?_, alone, fun _ => alone⟩
  rw [still ..]
  exact alone disk fits

/-- No candidate is on disk, and the disk shows the accepted project. -/
structure Bench.Settled (layout : Layout) (bench : Bench) : Prop where
  root : bench.worktree.root = layout.root
  clean : bench.worktree.pending = []
  fits : layout.Fits bench.world.disk
  shows : layout.Shows bench.world.disk (bench.project.contents.get?)
  proper : bench.project.files.IsProper
  tracked : ∀ name, bench.project.tracks name = true → name ∈ layout.names

/-- A bench is as settled as it was before, with the same project. -/
structure Bench.Returns (layout : Layout) (drift : layout.Drift) (before after : Bench) : Prop where
  settled : after.Settled layout
  project : after.project = before.project
  drifts : drift.drifts before.world.disk after.world.disk

/-- A candidate for the project of a settled bench is on disk, or files of it are. -/
structure Bench.Pends (layout : Layout) (drift : layout.Drift) (before : Bench)
    (buffers : Project.Buffers) (bench : Bench) : Prop where
  project : bench.project = before.project
  root : bench.worktree.root = layout.root
  pending : bench.worktree.pending = sortNames (buffers.contents.names)
  touches : layout.Touches (sortNames (buffers.contents.names)) before.world.disk
    bench.world.disk
  drifts : drift.drifts before.world.disk bench.world.disk

/-- A candidate for the project of a settled bench is on disk. -/
structure Bench.Carries (layout : Layout) (drift : layout.Drift) (before : Bench)
    (buffers : Project.Buffers) (bench : Bench) : Prop extends
    Bench.Pends layout drift before buffers bench where
  writes : layout.Writes (sortNames (buffers.contents.names))
    (Worktree.wanted buffers.contents) before.world.disk bench.world.disk

/-- The driver was heard on a disk that shows these bytes. -/
structure Hearing.Of (layout : Layout) (shown : String → Option Bytes) (hearing : Hearing) :
    Prop where
  fits : layout.Fits hearing.disk
  shows : layout.Shows hearing.disk shown

/-- A candidate has become the accepted project: a smaller one, on which the driver has reproduced
the bug. -/
structure Trial.Commits (layout : Layout) (drift : layout.Drift) (before : Bench) (trial : Trial)
    (after : Bench) : Prop where
  settled : after.Settled layout
  drifts : drift.drifts before.world.disk after.world.disk
  root : after.project.root = before.project.root
  turns : trial.candidate.Turns (before.project.contents.get?)
    (after.project.contents.get?)
  removed : ∀ name, name ∈ after.project.removed ↔
    name ∈ before.project.removed ∨ name ∈ trial.candidate.removed
  gone : ∀ name ∈ trial.candidate.removed, name ∈ layout.names
  sizeBefore : trial.sizeBefore = before.project.size
  sizeAfter : trial.sizeAfter = after.project.size
  smaller : trial.sizeAfter < trial.sizeBefore
  heard : ∃ hearing, after.judge.hearings = hearing :: before.judge.hearings ∧
    trial.verdict = some hearing.verdict ∧ hearing.verdict.reproduces = true ∧
    hearing.Of layout (after.project.contents.get?)

/-- Why a candidate was not accepted, with the hearings that led to it. -/
inductive Trial.Refused (layout : Layout) (parsers : Parsers) (before : Bench)
    (candidate : Candidate) : List Hearing → Prop where
  | unparsed {path reason : String} {offset : Option Int} :
    before.project.apply parsers candidate = .error (.candidateUnparsed path reason offset) →
    Refused layout parsers before candidate before.judge.hearings
  | notSmaller {buffers : Project.Buffers} :
    before.project.apply parsers candidate = .ok buffers → before.project.size ≤ buffers.size →
    Refused layout parsers before candidate before.judge.hearings
  | judged {buffers : Project.Buffers} {hearing : Hearing} :
    before.project.apply parsers candidate = .ok buffers → hearing.verdict.reproduces = false →
    hearing.Of layout (Listing.overlay buffers.contents (before.project.contents.get?)) →
    Refused layout parsers before candidate (hearing :: before.judge.hearings)

def Trial.Concludes (layout : Layout) (drift : layout.Drift) (parsers : Parsers) (before : Bench)
    (candidate : Candidate) (trial : Trial) (after : Bench) : Prop :=
  trial.candidate = candidate ∧
    if trial.committed then Commits layout drift before trial after
    else (layout.Writable → Bench.Returns layout drift before after) ∧
      Refused layout parsers before candidate after.judge.hearings

/-- What a trial leaves that fails; only hooks can make it fail after the driver was heard. -/
def Trial.Fails (layout : Layout) (drift : layout.Drift) (hooks : Hooks) (before after : Bench) : Prop :=
  layout.Writable → Bench.Returns layout drift before after ∧
    (hooks = {} → after.judge.hearings = before.judge.hearings)

section Trial

variable {drift : layout.Drift} {host : Host} {driver : String} {hooks : Hooks}
  {before bench : Bench} {buffers : Project.Buffers}

namespace Trial

/-- The modes that files have whose candidate was taken back. -/
def modesBack (before : Bench) (buffers : Project.Buffers) (modes : String → Option Nat) :
    String → Option Nat :=
  Layout.modesAfter (sortNames (buffers.contents.names))
    (before.project.contents.get?) modes

/-- A trial takes a file away to see whether it is needed: its candidate makes the project smaller by
removing it, and is written as far as that. -/
structure TakesAway (host : Host) (hooks : Hooks) (bench : Bench) (candidate : Candidate)
    (buffers : Project.Buffers) (name : String) : Prop where
  applied : bench.project.apply host.parsers candidate = .ok buffers
  smaller : buffers.size < bench.project.size
  prepared : (hooks.prepare.runOn bench.world.disk).1 = .ok ()
  removed : name ∈ candidate.removed
  spaced : name ∈ Worktree.spaced buffers.contents (host.roomFor bench.worktree.written)

/-- What a trial does to the modes of files: nothing, if the candidate was not written; else the
candidate is taken back, or its files stay with the modes that they had. -/
inductive Wears (layout : Layout) (host : Host) (hooks : Hooks) (candidate : Candidate)
    (before : Bench) (committed : Bool) (after : Bench) : Prop where
  | unwritten : (∀ buffers name, ¬ TakesAway host hooks before candidate buffers name) →
    layout.Wears after.world.disk (layout.mode? before.world.disk) →
    Wears layout host hooks candidate before committed after
  | takenBack (buffers : Project.Buffers) :
    before.project.apply host.parsers candidate = .ok buffers →
    buffers.size < before.project.size → (hooks.prepare.runOn before.world.disk).1 = .ok () →
    layout.Wears after.world.disk (modesBack before buffers (Layout.modesAfter
      (Worktree.spaced buffers.contents (host.roomFor before.worktree.written))
      (Worktree.wanted buffers.contents) (layout.mode? before.world.disk))) →
    Wears layout host hooks candidate before committed after
  | stays (buffers : Project.Buffers) :
    before.project.apply host.parsers candidate = .ok buffers → committed = true →
    layout.Wears after.world.disk (Layout.modesAfter (sortNames (buffers.contents.names))
      (Worktree.wanted buffers.contents) (layout.mode? before.world.disk)) →
    Wears layout host hooks candidate before committed after

end Trial

namespace Bench

/-- A bench stays settled if its files are left alone. -/
theorem Settled.returns (settled : before.Settled layout) {world : World}
    (spares : layout.Spares drift before.world.disk world.disk) :
    Returns layout drift before { before with world } :=
  ⟨⟨settled.root, settled.clean, spares.fits, spares.shows settled.shows, settled.proper,
    settled.tracked⟩, rfl, spares.drifts⟩

namespace Carries

variable (carries : Carries layout drift before buffers bench)

include carries

theorem fits : layout.Fits bench.world.disk :=
  carries.writes.fits

theorem shows (settled : before.Settled layout) : layout.Shows bench.world.disk
    (Listing.overlay buffers.contents (before.project.contents.get?)) :=
  fun name member => (carries.writes.shows settled.shows name member).trans (Worktree.overlay_eq name)

theorem tells (settled : before.Settled layout) (verdict : Verdict) (cancelled : Bool) :
    ({ disk := bench.world.disk, verdict, cancelled } : Hearing).Of layout
      (Listing.overlay buffers.contents (before.project.contents.get?)) :=
  ⟨carries.fits, carries.shows settled⟩

/-- A candidate stays on disk as long as its files are left alone. -/
theorem spared {judge : Judge} {world : World}
    (spares : layout.Spares drift bench.world.disk world.disk) :
    Carries layout drift before buffers { bench with judge, world } where
  project := carries.project
  root := carries.root
  pending := carries.pending
  touches := carries.touches.trans (spares.touches.mono (by simp))
  drifts := drift.trans carries.drifts spares.drifts
  writes := carries.writes.lasts spares.touches

variable (undisturbed : layout.Undisturbed drift host driver hooks)

include undisturbed

theorem judgeCandidate_ends :
    (judgeCandidate host driver).Ends
      (fun verdict after => Carries layout drift before buffers after ∧
        after.judge.hearings = { disk := bench.world.disk, verdict, cancelled := after.world.cancelled }
          :: bench.judge.hearings)
      (fun _ after => Carries layout drift before buffers after ∧
        after.judge.hearings = bench.judge.hearings) bench := by
  have spares := undisturbed.launch (bench.world.launches + 1) _ carries.fits
  rw [← carries.root] at spares
  refine ends_judgeCandidate fun _ _ ran => ?_
  rw [← ran.disk] at spares
  cases ran with
  | heard => exact ⟨carries.spared spares, rfl⟩
  | unheard => exact ⟨carries.spared spares, rfl⟩

/-- Cleaning up leaves the candidate on disk, and cannot fail where nothing is to be done. -/
theorem cleanup_ends (reproduces : Bool) :
    (onDisk (hooks.cleanup reproduces)).Ends
      (fun _ after => Carries layout drift before buffers after ∧ after.judge = bench.judge ∧
        after.world.cancelled = bench.world.cancelled)
      (fun _ after => Carries layout drift before buffers after ∧ hooks ≠ {}) bench := by
  have spares := undisturbed.cleanup reproduces _ carries.fits
  rw [onDisk, ends_within]
  rcases ran : (hooks.cleanup reproduces).runOn bench.world.disk with ⟨failure | _, disk⟩
  · rw [ran] at spares
    rw [ends_error ran]
    refine ⟨carries.spared spares, ?_⟩
    rintro rfl
    cases ran
  · rw [ran] at spares
    rw [ends_ok ran]
    exact ⟨carries.spared spares, rfl, rfl⟩

end Carries
end Bench

section Settled

variable (settled : before.Settled layout) (suits : buffers.Suits before.project)

include settled suits

theorem Project.Buffers.Suits.inside :
    ∀ name ∈ sortNames (buffers.contents.names), name ∈ layout.names :=
  fun name member => settled.tracked name (suits.tracked name (mem_sortNames.mp member))

/-- The files of a candidate can be taken back. -/
theorem Bench.restore_ends (pends : Pends layout drift before buffers bench) :
    restore.Ends
      (fun _ after => Returns layout drift before after ∧ after.judge = bench.judge ∧
        layout.Writes (sortNames (buffers.contents.names))
          (before.project.contents.get?) bench.world.disk after.world.disk)
      (fun _ _ => ¬ layout.Writable) bench := by
  rw [restore, ends_get_bind, onWorktree, ends_within, pends.project]
  refine (Worktree.restore_ends pends.root (fun name member => suits.inside settled name
    (pends.pending ▸ member)) pends.touches.fits).imp ?_ fun _ _ => id
  rintro _ site ⟨root, clean, alters, writes⟩
  rw [pends.pending] at writes
  have shows : layout.Shows site.2 (before.project.contents.get?) := by
    intro name member
    by_cases pended : name ∈ sortNames (buffers.contents.names)
    · exact writes.bytes name member pended
    · rw [writes.toTouches.bytes member pended, pends.touches.bytes member pended,
        settled.shows name member]
  exact ⟨⟨⟨root, clean, writes.fits, shows, settled.proper, settled.tracked⟩, rfl,
    drift.trans pends.drifts (drift.alters pends.touches.fits writes.fits alters)⟩, rfl, writes⟩

namespace Trial

/-- Writing a candidate once the trial was prepared puts it on disk, or takes it back. -/
theorem materialize_ends {world : World}
    (spares : layout.Spares drift before.world.disk world.disk) :
    (materialize host buffers).Ends
      (fun _ after => Bench.Carries layout drift before buffers after ∧ after.judge = before.judge ∧
        Worktree.spaced buffers.contents (host.roomFor before.worktree.written) =
          sortNames (buffers.contents.names))
      (fun _ after => layout.Writable → Bench.Returns layout drift before after ∧
        after.judge = before.judge ∧ layout.Wears after.world.disk (modesBack before buffers
          (Layout.modesAfter
            (Worktree.spaced buffers.contents (host.roomFor before.worktree.written))
            (Worktree.wanted buffers.contents) (layout.mode? before.world.disk))))
      { before with world } := by
  rw [materialize, ends_get_bind]
  rw [ends_bind, ends_attempt, Bench.onWorktree, ends_within]
  refine (Worktree.write_ends settled.root settled.clean spares.fits (suits.inside settled)).imp ?_ ?_
  · rintro _ ⟨worktree, disk⟩ ⟨⟨root, pending, alters⟩, writes, all⟩
    have writes := writes.since spares.touches
    exact ⟨⟨⟨rfl, root, pending, writes.toTouches,
      drift.trans spares.drifts (drift.alters spares.fits writes.fits alters)⟩, writes⟩, rfl, all⟩
  · rintro failure ⟨worktree, disk⟩ ⟨⟨root, pending, alters⟩, touches, written⟩
    dsimp only at written ⊢
    split
    · have pends : Bench.Pends layout drift before buffers
          { before with worktree, world := { world with disk } } :=
        ⟨rfl, root, pending, (spares.touches.mono (by simp)).trans touches,
          drift.trans spares.drifts (drift.alters spares.fits touches.fits alters)⟩
      refine Step.Ends.bind (Bench.restore_ends settled suits pends) ?_
        fun _ _ impossible writable => absurd writable impossible
      rintro _ after ⟨returns, judge, back⟩ writable
      exact ⟨returns, judge, back.wears (((written writable).2.since spares.touches).wears
        fun _ _ => rfl)⟩
    · next other =>
      intro writable
      obtain ⟨⟨fault, same⟩, -⟩ := written writable
      exact absurd same (other fault)

/-- A candidate was taken back: the bench is as settled as it was before, and files that were taken
away are new. -/
def TakesBack (layout : Layout) (drift : layout.Drift) (before : Bench) (buffers : Project.Buffers)
    (after : Bench) : Prop :=
  Bench.Returns layout drift before after ∧ layout.Wears after.world.disk (modesBack before buffers
    (Layout.modesAfter (sortNames (buffers.contents.names))
      (Worktree.wanted buffers.contents) (layout.mode? before.world.disk)))

variable (carries : Bench.Carries layout drift before buffers bench)

include carries

theorem restore_takesBack :
    Bench.restore.Ends
      (fun _ after => TakesBack layout drift before buffers after ∧ after.judge = bench.judge)
      (fun _ _ => ¬ layout.Writable) bench :=
  (Bench.restore_ends settled suits carries.toPends).imp (fun _ _ back =>
    ⟨⟨back.1, back.2.2.wears (carries.writes.wears fun _ _ => rfl)⟩, back.2.1⟩) fun _ _ => id

/-- Judging a candidate leaves it on disk, or takes it back; the run of the driver is remembered. -/
theorem judge_ends (undisturbed : layout.Undisturbed drift host driver hooks) :
    (judge host driver hooks).Ends
      (fun verdict after => Bench.Carries layout drift before buffers after ∧
        after.judge.hearings = { disk := bench.world.disk, verdict, cancelled := after.world.cancelled }
          :: bench.judge.hearings)
      (fun _ after => layout.Writable → TakesBack layout drift before buffers after ∧
        (hooks = {} → after.judge.hearings = bench.judge.hearings)) bench := by
  -- Whatever fails, the candidate is still on disk then, so that it can be taken back.
  have takenBack : ∀ {done : Verdict → Bench → Prop} {failure : Failure} {bench' : Bench},
      Bench.Carries layout drift before buffers bench' →
      (hooks = {} → bench'.judge.hearings = bench.judge.hearings) →
      (do Bench.restore; throw failure : Step Bench Verdict).Ends done
        (fun _ after => layout.Writable → TakesBack layout drift before buffers after ∧
          (hooks = {} → after.judge.hearings = bench.judge.hearings)) bench' := by
    intro done failure bench' carries unheard
    refine (restore_takesBack settled suits carries).bind ?_
      fun _ _ impossible writable => absurd writable impossible
    rintro _ after ⟨back, judge⟩ _
    exact ⟨back, fun plain => judge ▸ unheard plain⟩
  rw [judge, ends_bind, ends_attempt]
  refine (carries.judgeCandidate_ends undisturbed).bind ?_ ?_
  · rintro verdict judged ⟨carries, heard⟩
    refine (carries.cleanup_ends undisturbed verdict.reproduces).bind ?_ ?_
    · rintro _ after ⟨carries, judge, cancelled⟩
      exact ⟨carries, by rw [judge, cancelled, heard]⟩
    · rintro _ after ⟨carries, hooked⟩
      exact takenBack carries fun plain => absurd plain hooked
  · rintro failure judged ⟨carries, unheard⟩
    exact takenBack carries fun _ => unheard

end Trial
end Settled

namespace Trial

theorem accept_ends {candidate : Candidate} (settled : before.Settled layout)
    (applied : before.project.apply host.parsers candidate = .ok buffers)
    (smaller : buffers.size < before.project.size)
    (carries : Bench.Carries layout drift before buffers bench) {hearing : Hearing}
    (heard : bench.judge.hearings = hearing :: before.judge.hearings)
    (reproduces : hearing.verdict.reproduces = true)
    (tells : hearing.Of layout
      (Listing.overlay buffers.contents (before.project.contents.get?))) :
    (Bench.accept buffers).Ends
      (fun _ after => Commits layout drift before
        { committed := true, candidate, verdict := some hearing.verdict
          sizeBefore := before.project.size, sizeAfter := buffers.size } after ∧
        layout.Wears after.world.disk (Layout.modesAfter (sortNames (buffers.contents.names))
          (Worktree.wanted buffers.contents) (layout.mode? before.world.disk)))
      (fun _ _ => False) bench := by
  have suits := Project.suits_of_apply applied
  obtain ⟨project, committed, becomes, size, removed⟩ :=
    Project.commit_of_suits settled.proper suits
  have contents : project.contents.get? =
      Listing.overlay buffers.contents (before.project.contents.get?) :=
    funext becomes.contents
  have turns := Project.turns_of_apply applied
  rw [← contents] at tells turns
  have tracked : ∀ name, project.tracks name = true → name ∈ layout.names := by
    intro name tracked
    refine settled.tracked name (Project.tracks_of_becomes suits becomes tracked)
  rw [Bench.ends_accept_of (carries.project ▸ committed)]
  refine ⟨⟨⟨carries.root, rfl, carries.fits, contents ▸ carries.shows settled, becomes.proper, tracked⟩,
    carries.drifts, becomes.root, turns, fun name => ?_, fun name gone => ?_, rfl,
    congrArg Nat.cast size.symm, Int.ofNat_lt.mpr smaller, hearing, heard, rfl, reproduces, tells⟩,
    carries.writes.wears fun _ _ => rfl⟩
  · rw [removed, Project.gone_iff_of_apply applied]
  · have spoken := (Project.gone_iff_of_apply applied).mpr gone
    exact settled.tracked name (suits.tracked name (Listing.mem_names_iff.mpr (by rw [spoken]; rfl)))

/-- What a trial leaves on a settled bench: it commits, or leaves the bench as it was but for the modes
of files. -/
theorem run_ends (candidate : Candidate) (undisturbed : layout.Undisturbed drift host driver hooks)
    (settled : before.Settled layout) :
    (run host driver hooks candidate).Ends
      (fun trial after => Concludes layout drift host.parsers before candidate trial after ∧
        (layout.Writable → Wears layout host hooks candidate before trial.committed after))
      (fun _ after => Fails layout drift hooks before after ∧
        (layout.Writable → Wears layout host hooks candidate before false after)) before := by
  have spared : layout.Spares drift before.world.disk before.world.disk :=
    ⟨settled.fits, fun _ _ => rfl, drift.alters settled.fits settled.fits (.refl layout _)⟩
  have stays := settled.returns spared
  have same : layout.Wears before.world.disk (layout.mode? before.world.disk) := fun _ _ => rfl
  rw [run, ends_get_bind]
  dsimp only
  split
  · next failure applied =>
    have worn : ∀ committed, layout.Writable →
        Wears layout host hooks candidate before committed before := fun _ _ =>
      .unwritten (fun _ _ takes => by cases applied.symm.trans takes.applied) same
    split
    · exact ⟨⟨rfl, fun _ => stays, .unparsed applied⟩, worn _⟩
    · exact ⟨fun _ => ⟨stays, fun _ => rfl⟩, worn _⟩
  · next buffers applied =>
    have suits := Project.suits_of_apply applied
    rw [ends_ite]
    constructor
    · refine fun notSmaller => ⟨⟨rfl, fun _ => stays, .notSmaller applied notSmaller⟩, fun _ =>
        .unwritten (fun other name takes => ?_) same⟩
      cases applied.symm.trans takes.applied
      exact absurd takes.smaller (Nat.not_lt.mpr notSmaller)
    intro notLarger
    have smaller := Nat.lt_of_not_le notLarger
    have spares := undisturbed.prepare _ settled.fits
    rw [ends_bind, Bench.onDisk, ends_within]
    rcases ran : hooks.prepare.runOn before.world.disk with ⟨failure | _, disk⟩
    · rw [ran] at spares
      rw [ends_error ran]
      refine ⟨fun _ => ⟨settled.returns spares, fun _ => rfl⟩, fun _ => .unwritten ?_ ?_⟩
      · intro _ _ takes
        cases (congrArg Prod.fst ran).symm.trans takes.prepared
      · exact fun name member => spares.touches.mode? member not_mem_nil
    rw [ran] at spares
    have prepared : (hooks.prepare.runOn before.world.disk).1 = .ok () := congrArg Prod.fst ran
    rw [ends_ok ran]
    refine Step.Ends.bind (materialize_ends settled suits spares) ?_ ?_
    · rintro _ written ⟨carries, unheard, all⟩
      have back : ∀ {after committed}, TakesBack layout drift before buffers after →
          Wears layout host hooks candidate before committed after := fun back =>
        .takenBack buffers applied smaller prepared (all ▸ back.2)
      refine (judge_ends settled suits carries undisturbed).bind ?_ ?_
      · rintro verdict judged ⟨carries', heard⟩
        rw [unheard] at heard
        have tells := carries.tells settled verdict judged.world.cancelled
        rw [ends_ite]
        refine ⟨fun reproduces => ?_, fun not => ?_⟩
        · exact (accept_ends settled applied smaller carries' heard reproduces tells).bind
            (fun _ _ accepted => ⟨⟨rfl, accepted.1⟩, fun _ => .stays buffers applied rfl accepted.2⟩)
            fun _ _ => False.elim
        · refine (restore_takesBack settled suits carries').bind ?_ ?_
          · rintro _ after ⟨taken, same⟩
            refine ⟨⟨rfl, fun _ => taken.1, ?_⟩, fun _ => back taken⟩
            rw [same, heard]
            exact .judged applied (Bool.eq_false_iff.mpr not) tells
          · exact fun _ _ impossible => ⟨fun writable => absurd writable impossible,
              fun writable => absurd writable impossible⟩
      · exact fun _ after failed => ⟨fun writable =>
          ⟨(failed writable).1.1, unheard ▸ (failed writable).2⟩, fun writable => back (failed writable).1⟩
    · rintro _ after failed
      refine ⟨fun writable => ?_, fun writable => ?_⟩
      · obtain ⟨returns, judge, -⟩ := failed writable
        exact ⟨returns, fun _ => by rw [judge]⟩
      · exact .takenBack buffers applied smaller prepared (failed writable).2.2

end Trial
end Trial
end Whittle
