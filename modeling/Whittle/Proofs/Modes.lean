import Whittle.Proofs.Transaction

/-!
The modes of files. A file that is written keeps its mode as long as it stands in its place; one that
was taken away and is put back is a new file, and has the mode of one. So after any number of trials a
tracked file has the mode that it had before them exactly if that was the mode of a new file, or no
trial has taken the file away (`Trial.runAll_mode_iff`).
-/

namespace Whittle

/-! ### Files of a layout -/

namespace Layout

variable {layout : Layout} {disk : Disk} {name : String}

/-- A file under a name has the mode that is asked for by its path. -/
theorem Fits.mode?_eq_ok_iff (fits : layout.Fits disk) (member : name ∈ layout.names) {mode : Nat} :
    disk.mode? (layout.root.child name) = .ok mode ↔ layout.mode? disk name = some mode := by
  have seated := fits.seated name member
  rw [Disk.mode?_of_located seated.locate, mode?]
  rcases Disk.isFile?_iff.mp seated.file with none | ⟨contents, mode, found⟩
  · simp [none]
  · simp [found]

theorem mode?_isSome (layout : Layout) (disk : Disk) (name : String) :
    (layout.mode? disk name).isSome = (layout.bytes disk name).isSome := by
  rw [mode?, bytes]
  rcases disk.get? (layout.seat name) with _ | ⟨_, _⟩ | _ | _ <;> rfl

end Layout

section Trials

variable {layout : Layout} {drift : layout.Drift} {host : Host} {driver : String} {hooks : Hooks}
  {before bench : Bench} {buffers : Project.Buffers} {modes : String → Option Nat} {name : String}

namespace Trial

/-- The file of a name is as a trial leaves it: new if it was taken away, and else as before. -/
structure Leaves (layout : Layout) (host : Host) (hooks : Hooks) (candidate : Candidate)
    (before after : Bench) (name : String) : Prop where
  tracked : before.project.tracks name = true
  new : (∃ buffers, TakesAway host hooks before candidate buffers name) →
    layout.mode? after.world.disk name = some Disk.newMode
  same : (¬ ∃ buffers, TakesAway host hooks before candidate buffers name) →
    layout.mode? after.world.disk name = layout.mode? before.world.disk name

theorem exists_mode? (settled : before.Settled layout) (tracked : before.project.tracks name = true) :
    (∃ data, before.project.contents.get? name = some data) ∧
      ∃ mode, layout.mode? before.world.disk name = some mode := by
  have member := settled.tracked name tracked
  obtain ⟨file, found⟩ := Project.tracks_iff.mp tracked
  have accepted : before.project.contents.get? name = some file.data := by
    rw [Project.get?_contents, found]
    rfl
  refine ⟨⟨_, accepted⟩, Option.isSome_iff_exists.mp ?_⟩
  rw [Layout.mode?_isSome, settled.shows name member, accepted]
  rfl

/-- Of the files of a candidate that was taken back, those that had been taken away are new. -/
theorem modesBack_eq (settled : before.Settled layout) {candidate : Candidate} {room : Option Nat}
    (applied : before.project.apply host.parsers candidate = .ok buffers)
    (tracked : before.project.tracks name = true) :
    modesBack before buffers (Layout.modesAfter (Worktree.spaced buffers.contents room)
        (Worktree.wanted buffers.contents) (layout.mode? before.world.disk)) name =
      if name ∈ candidate.removed ∧ name ∈ Worktree.spaced buffers.contents room
      then some Disk.newMode else layout.mode? before.world.disk name := by
  obtain ⟨⟨data, accepted⟩, mode, found⟩ := exists_mode? settled tracked
  have gone : buffers.contents.get? name = some none ↔ name ∈ candidate.removed :=
    Project.gone_iff_of_apply applied
  simp only [modesBack, Layout.modesAfter, accepted, found, mem_sortNames, Listing.mem_names_iff,
    Worktree.wanted]
  have spoken : name ∈ Worktree.spaced buffers.contents room →
      (buffers.contents.get? name).isSome = true := fun member =>
    Listing.mem_names_iff.mp (mem_sortNames.mp (List.mem_of_mem_take member))
  rcases said : buffers.contents.get? name with _ | _ | data'
  · rw [said] at spoken
    simp_all
  · rw [said] at gone
    by_cases spaced : name ∈ Worktree.spaced buffers.contents room
    · simp [spaced, gone.mp rfl]
    · simp [spaced]
  · have stays : name ∉ candidate.removed := fun member => by
      rw [gone.mpr member] at said
      cases said
    by_cases spaced : name ∈ Worktree.spaced buffers.contents room
    · simp [spaced, stays]
    · simp [spaced]

theorem tracks_of_run (candidate : Candidate) (proper : before.project.files.IsProper)
    (tracked : ((run host driver hooks candidate).runOn before).2.project.tracks name = true) :
    before.project.tracks name = true := by
  rcases run_changes host driver hooks candidate before _ rfl with same | ⟨buffers, result, applied, commits⟩
  · exact same ▸ tracked
  · have suits := Project.suits_of_apply applied
    obtain ⟨changed, commits', becomes, -⟩ := Project.commit_of_suits proper suits
    cases commits.symm.trans commits'
    exact Project.tracks_of_becomes suits becomes tracked

/-- What a trial does to the modes of files, said of one that is tracked. -/
theorem Wears.leaves {candidate : Candidate} {committed : Bool} {after : Bench}
    (wears : Wears layout host hooks candidate before committed after)
    (settled : before.Settled layout) (settled' : after.Settled layout)
    (tracked : before.project.tracks name = true) (tracked' : after.project.tracks name = true) :
    Leaves layout host hooks candidate before after name := by
  have member := settled.tracked name tracked
  obtain ⟨-, mode, found⟩ := exists_mode? settled tracked
  obtain ⟨-, mode', found'⟩ := exists_mode? settled' tracked'
  cases wears with
  | unwritten none wears =>
    exact ⟨tracked, fun ⟨buffers, takes⟩ => absurd takes (none buffers name),
      fun _ => wears name member⟩
  | takenBack buffers applied smaller prepared wears =>
    have worn := (wears name member).trans (modesBack_eq settled applied tracked)
    refine ⟨tracked, ?_, ?_⟩
    · rintro ⟨other, takes⟩
      cases applied.symm.trans takes.applied
      rw [worn, if_pos ⟨takes.removed, takes.spaced⟩]
    · intro stays
      rw [worn, if_neg]
      rintro ⟨removed, spaced⟩
      exact stays ⟨buffers, applied, smaller, prepared, removed, spaced⟩
  | stays buffers applied committed wears =>
    have worn := wears name member
    rw [Layout.modesAfter, found, found'] at worn
    refine ⟨tracked, ?_, fun _ => ?_⟩
    · -- a file that is tracked was not taken away
      rintro ⟨other, takes⟩
      cases applied.symm.trans takes.applied
      have spoken : name ∈ sortNames (buffers.contents.names) :=
        List.mem_of_mem_take takes.spaced
      rw [if_pos spoken, Worktree.wanted, (Project.gone_iff_of_apply applied).mpr takes.removed] at worn
      cases worn
    · rw [found, found']
      by_cases spoken : name ∈ sortNames (buffers.contents.names)
      · rw [if_pos spoken] at worn
        cases wanted : Worktree.wanted buffers.contents name with
        | none => simp [wanted] at worn
        | some data => simpa [wanted] using worn
      · simpa [spoken] using worn

/-- A trial makes a new file of one that it takes away and puts back; all others keep their modes. -/
theorem run_leaves (candidate : Candidate) (undisturbed : layout.Undisturbed drift host driver hooks)
    (settled : before.Settled layout) (writable : layout.Writable) :
    ((run host driver hooks candidate).runOn before).2.Settled layout ∧
      ∀ name, ((run host driver hooks candidate).runOn before).2.project.tracks name = true →
        Leaves layout host hooks candidate before ((run host driver hooks candidate).runOn before).2
          name := by
  have tracked : ∀ name,
      ((run host driver hooks candidate).runOn before).2.project.tracks name = true →
      before.project.tracks name = true := fun name => tracks_of_run candidate settled.proper
  have ends := run_ends candidate undisturbed settled
  rcases ran : (run host driver hooks candidate).runOn before with ⟨failure | trial, after⟩
  · rw [ends_error ran] at ends
    rw [ran] at tracked
    have settled' := (ends.1 writable).1.settled
    exact ⟨settled', fun name is => (ends.2 writable).leaves settled settled' (tracked name is) is⟩
  · rw [ends_ok ran] at ends
    rw [ran] at tracked
    obtain ⟨⟨-, concludes⟩, wears⟩ := ends
    have settled' : after.Settled layout := by
      split at concludes
      · exact concludes.settled
      · exact (concludes.1 writable).settled
    exact ⟨settled', fun name is => (wears writable).leaves settled settled' (tracked name is) is⟩

/-! ### Trials one after the other -/

def runAll (host : Host) (driver : String) (hooks : Hooks) : Bench → List Candidate → Bench
  | bench, [] => bench
  | bench, candidate :: rest =>
    runAll host driver hooks ((run host driver hooks candidate).runOn bench).2 rest

def TakenAway (host : Host) (driver : String) (hooks : Hooks) (name : String) :
    Bench → List Candidate → Prop
  | _, [] => False
  | bench, candidate :: rest => (∃ buffers, TakesAway host hooks bench candidate buffers name) ∨
    TakenAway host driver hooks name ((run host driver hooks candidate).runOn bench).2 rest

theorem runAll_leaves (undisturbed : layout.Undisturbed drift host driver hooks)
    (settled : before.Settled layout) (writable : layout.Writable) (candidates : List Candidate)
    (tracked : (runAll host driver hooks before candidates).project.tracks name = true) :
    (runAll host driver hooks before candidates).Settled layout ∧
      before.project.tracks name = true ∧
      (TakenAway host driver hooks name before candidates →
        layout.mode? (runAll host driver hooks before candidates).world.disk name =
          some Disk.newMode) ∧
      (¬ TakenAway host driver hooks name before candidates →
        layout.mode? (runAll host driver hooks before candidates).world.disk name =
          layout.mode? before.world.disk name) := by
  induction candidates generalizing before with
  | nil => exact ⟨settled, tracked, fun none => none.elim, fun _ => rfl⟩
  | cons candidate rest ih =>
    obtain ⟨settled', leaves⟩ := run_leaves candidate undisturbed settled writable
    obtain ⟨last, tracked', new, same⟩ := ih settled' tracked
    have leaves := leaves name tracked'
    refine ⟨last, leaves.tracked, ?_, ?_⟩
    · intro taken
      by_cases later : TakenAway host driver hooks name
          ((run host driver hooks candidate).runOn before).2 rest
      · exact new later
      · exact (same later).trans (leaves.new (taken.resolve_right later))
    · intro stays
      have later := not_or.mp stays
      exact (same later.2).trans (leaves.same later.1)

/-- After any number of trials, a tracked file has the mode that it had before them exactly if that
was the mode of a new file, or none of them has taken the file away. -/
theorem runAll_mode_iff (settled : bench.Settled layout)
    (undisturbed : layout.Undisturbed (.any layout) host driver hooks) (writable : layout.Writable)
    (candidates : List Candidate)
    (tracked : (runAll host driver hooks bench candidates).project.tracks name = true) :
    (∃ mode, bench.world.disk.mode? (layout.root.child name) = .ok mode ∧
      (runAll host driver hooks bench candidates).world.disk.mode? (layout.root.child name) =
        .ok mode) ↔
    (TakenAway host driver hooks name bench candidates →
      bench.world.disk.mode? (layout.root.child name) = .ok Disk.newMode) := by
  obtain ⟨settled', tracked', new, same⟩ :=
    runAll_leaves undisturbed settled writable candidates tracked
  have member := settled.tracked name tracked'
  simp only [settled.fits.mode?_eq_ok_iff member, settled'.fits.mode?_eq_ok_iff member]
  by_cases taken : TakenAway host driver hooks name bench candidates
  · simp only [new taken, taken, true_implies]
    constructor
    · rintro ⟨mode, was, is⟩
      exact was.trans is.symm
    · exact fun was => ⟨Disk.newMode, was, rfl⟩
  · obtain ⟨-, mode, found⟩ := exists_mode? settled tracked'
    exact iff_of_true ⟨mode, found, (same taken).trans found⟩ fun is => absurd is taken

end Trial
end Trials

/-! ### A file that can be run -/

namespace Sample

/-- The small project with a file that can be run. -/
def runnable : Bench :=
  { bench with
    world :=
      { disk :=
          { home := ["work"]
            entries := [(["work", "project"], .dir),
              (["work", "project", "a"], .file (.ofBytes lines) 0o755)] } } }

theorem runnable_settled : runnable.Settled layout where
  root := rfl
  clean := rfl
  fits := layout_fits (by decide) rfl rfl rfl rfl
  shows name member := by
    cases List.mem_singleton.mp member
    rfl
  proper := bench_settled.proper
  tracked := bench_settled.tracked

def removal : Candidate :=
  { passName := "files", path := none, removed := ["a"] }

/-- A line of the file goes, and the file can still be run. -/
theorem runAll_mode_runnable :
    (Trial.runAll host "driver" {} runnable [candidate]).project.tracks "a" = true ∧
    ∃ mode, runnable.world.disk.mode? (layout.root.child "a") = .ok mode ∧
      (Trial.runAll host "driver" {} runnable [candidate]).world.disk.mode?
        (layout.root.child "a") = .ok mode := by
  have tracked : (Trial.runAll host "driver" {} runnable [candidate]).project.tracks "a" = true := by
    decide +kernel
  refine ⟨tracked, ?_⟩
  refine (Trial.runAll_mode_iff runnable_settled (layout_undisturbed _) layout_writable [candidate]
    tracked).mpr ?_
  rintro (⟨buffers, takes⟩ | none)
  · have removed := takes.removed
    cases removed
  · exact none.elim

/-- A trial that takes the file away is rejected. The file is back, but cannot be run. -/
theorem runAll_removal_differs :
    (∀ count disk, (mute.launch root "driver" count disk).disk = disk) ∧
    (Trial.runAll mute "driver" {} runnable [removal]).project.tracks "a" = true ∧
    runnable.world.disk.mode? (root.child "a") = .ok 0o755 ∧
    (Trial.runAll mute "driver" {} runnable [removal]).world.disk.mode? (root.child "a") =
      .ok 0o644 := by
  refine ⟨fun _ _ => rfl, ?_, ?_, ?_⟩ <;> decide +kernel

end Sample
end Whittle
