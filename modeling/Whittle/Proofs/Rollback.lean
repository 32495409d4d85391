import Whittle.Proofs.Frame

/-!
Taking a candidate back where not every file can be. The pending files are put back one after the
other up to the first that cannot be (`Worktree.restore_stops`). Those before it then have their
accepted bytes; all others stay as the candidate or the driver left them, also those that could have
been put back.
-/

namespace Whittle

open List

/-- What a name leads to is a file of these bytes or, without bytes, nothing. -/
def Ambit.Has (ambit : Ambit) (disk : Disk) (name : String) (wanted : Option Bytes) : Prop :=
  ∃ mode, disk.get? (ambit.seat name) = wanted.map fun data => .file (.ofBytes data) mode

namespace Worktree

variable {ambit : Ambit} {before disk after : Disk} {names : List String} {failure : Failure}
  {wanted : String → Option Bytes}

/-- Of some files the first were put as wanted, the next could not be, and nothing else has
changed. -/
def Stops (ambit : Ambit) (wanted : String → Option Bytes) (names : List String) (disk : Disk)
    (failure : Failure) (after : Disk) : Prop :=
  ∃ done stuck rest, names = done ++ stuck :: rest ∧
    (∃ middle, (putFile ambit.root stuck (wanted stuck)).runOn middle = (.error failure, after)) ∧
    (∀ name ∈ done, ambit.Has after name (wanted name)) ∧
    ∀ place, (∀ name ∈ done, place ≠ ambit.seat name) → after.get? place = disk.get? place

theorem putFiles_stops (frames : ambit.Frames before disk)
    (members : ∀ name ∈ names, name ∈ ambit.names)
    (apart : ∀ name ∈ names, ∀ other ∈ names, ambit.seat name = ambit.seat other → name = other)
    (failed : (putFiles ambit.root (names.map fun name => (name, wanted name))).runOn disk =
      (.error failure, after)) :
    Stops ambit wanted names disk failure after := by
  induction names generalizing disk with
  | nil => cases failed
  | cons name rest ih =>
    have member := members name mem_cons_self
    have posted := (frames.fits.posted name member).mono (Margin.keepsWays_without _ _)
    have touches := putFile_touches posted (frames.fits.free name member) (wanted name)
    rw [map_cons, putFiles_cons, Step.runOn_bind] at failed
    rcases ran : (putFile ambit.root name (wanted name)).runOn disk with ⟨fault | _, middle⟩
    · rw [ran] at failed
      cases failed
      have puts := ((ends_error ran).mp touches).1
      refine ⟨[], name, rest, rfl, ⟨disk, ran⟩, by simp, fun place _ => ?_⟩
      by_cases same : place = ambit.seat name
      · rw [same, puts.here]
      · exact puts.elsewhere place same
    · rw [ran] at failed
      obtain ⟨mode, puts, -⟩ := (ends_ok ran).mp touches
      obtain ⟨done, stuck, rest', split, stops, has, elsewhere⟩ :=
        ih (frames.puts member puts) (forall_mem_cons.mp members).2
          (fun one first other second => apart one (mem_cons_of_mem _ first) other
            (mem_cons_of_mem _ second)) failed
      refine ⟨name :: done, stuck, rest', by rw [split]; rfl, stops, fun other done' => ?_,
        fun place out => ?_⟩
      · -- a name that comes again is put again with the same bytes
        by_cases again : other ∈ done
        · exact has other again
        · obtain rfl := (mem_cons.mp done').resolve_right again
          refine ⟨mode, (elsewhere _ fun later member' same => again ?_).trans puts.here⟩
          have later' : later ∈ other :: rest :=
            mem_cons_of_mem _ (split ▸ mem_append_left _ member')
          exact apart other mem_cons_self later later' same ▸ member'
      · rw [forall_mem_cons] at out
        exact (elsewhere place out.2).trans (puts.elsewhere place out.1)

/-- Taking a candidate back fails at the first file that cannot be put back. The pending files before
it have their accepted bytes, and no other place has changed. -/
theorem restore_stops {worktree : Worktree} {site : Worktree × Disk} {accepted : Listing Bytes}
    (frames : Frames ambit disk (worktree, disk))
    (apart : ∀ name ∈ worktree.pending, ∀ other ∈ worktree.pending,
      ambit.seat name = ambit.seat other → name = other)
    (failed : (restore accepted).runOn (worktree, disk) = (.error failure, site)) :
    Stops ambit (Listing.get? accepted) worktree.pending disk failure site.2 := by
  rw [restore, Step.runOn_bind, Step.runOn_get] at failed
  dsimp only at failed
  rw [Step.runOn_bind, show worktree.root = ambit.root from frames.root] at failed
  split at failed
  · cases failed
  · next fault stopped ran =>
    cases failed
    obtain ⟨_, stops, rfl⟩ := Step.runOn_within_eq_iff.mp ran
    exact putFiles_stops frames.disk frames.pending apart stops

end Worktree

namespace Sample

/-- Three files, of which the second has become a directory. -/
def blocked : Disk where
  home := ["work"]
  entries := [(["work", "project"], .dir), (["work", "project", "b"], .dir)]

def trio : Ambit where
  root
  names := ["a", "b", "c"]
  seat name := ["work", "project", name]
  margin := { has := fun _ => false, below := fun _ _ has => has }
  records := []
  inner := by
    rw [forall_mem_cons, forall_mem_cons, forall_mem_singleton]
    refine ⟨?_, ?_, ?_⟩ <;> exact ⟨by decide, by decide, by decide⟩
  clear := by decide +kernel
  spares := by decide +kernel

def removed : Worktree := { root, pending := ["a", "b", "c"] }

def trioFiles : Listing Bytes := [("a", lines), ("b", lines), ("c", lines)]

theorem trio_frames : Worktree.Frames trio blocked (removed, blocked) where
  disk := by
    refine ⟨⟨?_, by decide +kernel, fun place target member => ?_, by simp [trio]⟩, fun _ _ _ => rfl⟩
    · change ∀ name ∈ ["a", "b", "c"], _
      rw [forall_mem_cons, forall_mem_cons, forall_mem_singleton]
      refine ⟨?_, ?_, ?_⟩ <;>
        exact ⟨by decide +kernel, ⟨by decide, by decide⟩, by decide +kernel, by decide +kernel⟩
    · simp [blocked] at member
  root := rfl
  pending _ member := member

/-- The first of three files is put back, the second cannot be, and the third is left. -/
theorem restore_blocked_stops :
    ∃ failure site, (Worktree.restore trioFiles).runOn (removed, blocked) = (.error failure, site) ∧
      Worktree.Stops trio (Listing.get? trioFiles) ["a", "b", "c"] blocked failure site.2 := by
  have fails : (Worktree.restore trioFiles).Ends (fun _ _ => False) (fun _ _ => True)
      (removed, blocked) := by
    decide +kernel
  obtain ⟨failure, site, failed, -⟩ := fails.exists_error
  exact ⟨failure, site, failed, Worktree.restore_stops trio_frames (by decide +kernel) failed⟩

/-- The third file could be written, but it is missing after the candidate was taken back. -/
theorem restore_blocked_loses :
    (Worktree.putFile root "c" (some lines)).Ends (fun _ after => trio.Has after "c" (some lines))
      (fun _ _ => False) blocked ∧
    (Worktree.restore trioFiles).Ends (fun _ _ => False)
      (fun _ site => site.2.get? (trio.seat "c") = none) (removed, blocked) := by
  refine ⟨?_, by decide +kernel⟩
  have writes : (Worktree.putFile root "c" (some lines)).Ends (fun _ after =>
      after.get? (trio.seat "c") = some (.file (.ofBytes lines) Disk.newMode)) (fun _ _ => False)
      blocked := by
    decide +kernel
  exact writes.imp (fun _ _ there => ⟨_, there⟩) fun _ _ => id

end Sample
end Whittle
