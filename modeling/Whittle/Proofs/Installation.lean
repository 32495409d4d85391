import Whittle.Proofs.Disk.Reached
import Whittle.Proofs.Layout

/-!
Writing the files of a snapshot where directories are missing. Those above a file are made
before it is written, so each file comes to where it would be on a larger disk, that has
them all (`Layout.putFiles_grows`). Then the removed files are taken away
(`Worktree.install_ends`).
-/

namespace Whittle

open List

open Disk

variable {disk whole before after : Disk} {place folder seat : Place} {path target root : Path}
  {name : String} {data : Bytes} {layout : Layout} {names removed : List String}
  {contents : Listing Bytes}

namespace Disk.Grows

/-- Where a larger disk has no directory, both have the same. -/
theorem get?_eq (grows : Grows disk whole) (file : IsFile? (whole.get? place)) :
    whole.get? place = disk.get? place := by
  rcases grows.places place with same | ⟨-, dir⟩
  · exact same
  · exact absurd dir file.ne_dir

/-- A directory is made where a larger disk has one, if its names arrive there. -/
theorem makeDir {left : Nat} (grows : Grows before whole) (tree : whole.IsTree)
    (made : before.makeDir path = .ok after)
    (arrives : whole.arrive linkLimit (whole.startOf path) path.names = some (left, folder)) :
    Grows after whole := by
  obtain ⟨-, place, leads, none, rfl⟩ := located_of_makeDir made
  have dir : whole.get? place = some .dir := by
    obtain ⟨found, walks, which⟩ := walk_of_arrive arrives
    cases walks.symm.trans (lookUp_eq_ok_iff.mp (lookUp_mono grows.keepsWays leads)).2
    rcases which with rfl | ⟨target, link⟩
    · exact tree.dir_of_arrive get?_startOf arrives
    · rcases grows.places place with same | ⟨-, dir⟩
      · cases link.symm.trans (same.trans none)
      · exact dir
  refine ⟨grows.home, fun other => ?_⟩
  by_cases here : other = place
  · rw [here, get?_put_self (not_isFixed (by simp [none])), dir]
    exact .inl rfl
  · rw [get?_put_of_ne here]
    exact grows.places other

/-- The directories above a file are made where a larger disk has them. -/
theorem makeDirs_parent (grows : Grows disk whole) (tree : whole.IsTree)
    (seated : whole.Seated target seat) : Grows (disk.makeDirs true target.parent).2 whole := by
  have upward : ∀ path operands, disk.makeDir path = .error (.met .notFound operands) →
      path.root = target.root ∧ path.names <+: target.parent.names →
      path.parent.root = target.root ∧ path.parent.names <+: target.parent.names :=
    fun path _ _ above => above.imp_right ( dropLast_prefix path.names).trans
  have makes : ∀ path before after,
      before = disk ∨ (∃ operands, disk.makeDir path = .error (.met .notFound operands)) →
      path.root = target.root ∧ path.names <+: target.parent.names → Grows before whole →
      before.makeDir path = .ok after → Grows after whole := by
    rintro path before after - ⟨root, more, above⟩ grows made
    have leads := (lookUp_eq_ok_iff.mp seated.leads).2
    rw [names_eq_parent_append seated.plain, ← above, append_assoc] at leads
    have starts : whole.startOf path = whole.startOf target := by
      rw [startOf, startOf, Path.isAbsolute, root, Path.isAbsolute]
    rw [← starts] at leads
    obtain ⟨left, folder, arrives⟩ := arrives_of_walk (by simp)
      (append_ne_here (by simp) (by simp [seated.plain.ne_empty])) leads
    exact grows.makeDir tree made arrives
  exact makeDirs_induction upward makes grows true _ ⟨rfl, prefix_refl _⟩

theorem puts {contents : Contents} {mode : Nat} (grows : Grows disk whole)
    (puts : Puts disk place (some (.file contents mode)) after) (file : IsFile? (whole.get? place)) :
    Grows after (whole.put place (.file contents mode)) := by
  refine ⟨grows.home.trans puts.home.symm, fun other => ?_⟩
  by_cases here : other = place
  · rw [here, puts.here, get?_put_self (not_isFixed file.ne_dir)]
    exact .inl rfl
  · rw [get?_put_of_ne here, puts.elsewhere other here]
    exact grows.places other

end Disk.Grows

namespace Worktree

theorem replaceFile_of_storeFile (named : (root.child name).name ≠ "")
    (ran : (storeFile root name data).runOn disk = (.ok (), after)) :
    (replaceFile (root.child name) (temporaryOf (root.child name)) data).runOn disk =
      (.ok (), after) := by
  have ends : (storeFile root name data).Ends (fun _ last => (replaceFile (root.child name)
      (temporaryOf (root.child name)) data).runOn disk = (.ok (), last)) (fun _ _ => True) disk := by
    rw [storeFile, if_neg named, ends_bind, ends_attempt]
    refine (Step.ends_self _ disk).imp (fun _ _ => id) fun failure last _ => ?_
    dsimp only
    split
    · rw [ends_bind, ends_attempt]
      exact Step.ends_of_forall (fun _ _ => trivial) fun _ _ => trivial
    · trivial
  exact (Step.ends_ok ran).mp ends

/-- A file that was written, with the directories above it, stands where it would on a larger disk. -/
theorem storeFile_grows (grows : disk.Grows whole) (tree : whole.IsTree)
    (seated : whole.Seated (root.child name) seat)
    (free : whole.get? (spareOf seat (root.child name).name) = none)
    (ran : (storeFile root name data).runOn disk = (.ok (), after)) :
    after.Grows (whole.put seat (.file (.ofBytes data) (modeFor whole seat))) := by
  have ran := replaceFile_of_storeFile seated.plain.ne_empty ran
  obtain ⟨_, middle, first, rest⟩ := Step.runOn_bind_eq_ok_iff.mp ran
  obtain ⟨_, written, wrote, -⟩ := Step.runOn_bind_eq_ok_iff.mp rest
  have made : disk.makeDirs true (root.child name).parent = (.ok (), middle) := by
    obtain ⟨made, rfl⟩ := Prod.mk.inj first
    exact Prod.ext (mapError_eq_ok_iff.mp made) rfl
  have grows := grows.makeDirs_parent tree seated
  rw [made] at grows
  -- the temporary file was written, so names arrive at the directory
  obtain ⟨left, folder, arrives⟩ : ∃ left folder, middle.arrive linkLimit
      (middle.startOf (root.child name)) (root.child name).parent.names = some (left, folder) := by
    have ends : (change (·.write (temporaryOf (root.child name)) data)).Ends
        (fun _ after => middle.write (temporaryOf (root.child name)) data = .ok after)
        (fun _ _ => True) middle := ends_change.mpr ⟨fun _ => id, fun _ _ => trivial⟩
    obtain ⟨place, _, _, located, -⟩ := of_alter ((Step.ends_ok wrote).mp ends)
    have leads := (lookUp_eq_ok_iff.mp (atPath_eq_ok_iff.mp located).2).2
    exact arrives_of_walk (by simp) (by simp [(temporaryName_plain _).ne_empty]) leads
  obtain ⟨short, fits, left', folder', there, rfl⟩ :=
    exists_arrive_of_lookUp seated.plain seated.leads
  have arrives' := arrive_mono grows.keepsWays arrives
  rw [startOf, ← grows.home] at arrives'
  cases arrives'.symm.trans there
  have same := grows.get?_eq seated.file
  have here := Seated.of_arrive seated.usable short seated.plain fits arrives
    (dir_of_makeDirs made arrives) (same ▸ seated.file)
  -- from there on all is as if the directory had been there before
  have again : (ensureDir true (root.child name).parent).runOn middle = (.ok (), middle) := by
    obtain ⟨usable, short⟩ := usable_of_makeDirs made
    change (_, _) = _
    rw [here.posted.makeDirs_parent usable short]
    rfl
  obtain ⟨mode, puts, right⟩ := (Step.ends_ok (Step.runOn_bind_eq_ok_iff.mpr ⟨_, _, again, rest⟩)).mp
    (replaceFile_ends here.posted (grows.get?_eq (by rw [free]; trivial) ▸ free))
  rw [right here.file, modeFor, ← same] at puts
  exact grows.puts puts seated.file

/-- The files to install are the contents, in order of their names. -/
theorem ordered_contents (contents : Listing Bytes) :
    ordered (contents.map fun entry => (entry.1, some entry.2)) =
      (sortNames contents.names).map fun name => (name, contents.get? name) := by
  rw [ordered, Listing.names_map some contents]
  refine map_congr_left fun name _ => ?_
  rw [Listing.get?_map some contents name]
  cases contents.get? name <;> rfl

end Worktree

/-- Files that were written, with the directories above them, show as they would on a larger disk. -/
theorem Layout.putFiles_grows (grows : disk.Grows whole) (tree : whole.IsTree)
    (fits : layout.Fits whole) {wanted : String → Option Bytes}
    (members : ∀ name ∈ names, name ∈ layout.names ∧ (wanted name).isSome = true)
    (ran : (Worktree.putFiles layout.root (names.map fun name => (name, wanted name))).runOn disk =
      (.ok (), after)) :
    ∃ larger, after.Grows larger ∧ layout.Writes names wanted whole larger := by
  induction names generalizing disk whole with
  | nil =>
    cases ran
    exact ⟨whole, grows, .nil fits wanted⟩
  | cons name rest ih =>
    obtain ⟨_, middle, first, ran⟩ := Step.runOn_bind_eq_ok_iff.mp ran
    obtain ⟨⟨member, given⟩, members⟩ := forall_mem_cons.mp members
    obtain ⟨data, is⟩ := Option.isSome_iff_exists.mp given
    have seated := fits.seated name member
    have notDir := seated.file.ne_dir
    dsimp only at first
    rw [is] at first
    have put := Worktree.storeFile_grows grows tree seated (fits.free name member) first
    have writes : layout.Writes [name] (fun _ => some data) whole (whole.put (layout.seat name)
        (.file (.ofBytes data) (Worktree.modeFor whole (layout.seat name)))) := by
      refine (fits.writes member ?_).1
      exact puts_put _ _ notDir
    obtain ⟨larger, grows, more⟩ := ih put
      (tree.put seated.folder (not_isFixed notDir) (.inr notDir)) writes.fits members ran
    exact ⟨larger, grows, .cons (is ▸ writes) more⟩

namespace Worktree

theorem removeAll_ends (fits : layout.Fits disk) (members : ∀ name ∈ removed, name ∈ layout.names) :
    (removeAll layout.root (removed.map .text)).Ends
      (fun _ after => layout.Writes removed (fun _ => none) disk after ∧ layout.Alters disk after)
      (fun _ _ => ¬ layout.Writable) disk := by
  induction removed generalizing disk with
  | nil => exact ⟨.nil fits _, .refl layout disk⟩
  | cons name rest ih =>
    refine (Layout.putFile_ends fits (members name mem_cons_self) none).bind ?_
      fun _ _ failed => failed.2
    rintro _ middle ⟨put, altered⟩
    exact (ih put.fits (forall_mem_cons.mp members).2).imp
      (fun _ _ done => ⟨put.cons done.1, altered.trans done.2⟩) fun _ _ => id

/-- Where the contents were written, removing the other files leaves just the contents. -/
theorem install_ends {stored lost : Disk → Prop}
    (stores : (putFiles layout.root ((sortNames contents.names).map fun name =>
      (name, contents.get? name))).Ends (fun _ => stored) (fun _ => lost) disk)
    (shows : ∀ disk, stored disk → layout.Fits disk ∧
      ∀ name ∈ contents.names, layout.bytes disk name = contents.get? name)
    (members : ∀ name, name ∈ layout.names ↔ name ∈ contents.names ∨ name ∈ removed)
    (gone : ∀ name ∈ removed, contents.get? name = none) :
    (install contents (removed.map .text)).Ends
      (fun _ site => ∃ disk, stored disk ∧ layout.Alters disk site.2 ∧ layout.Fits site.2 ∧
        layout.Shows site.2 (contents.get?))
      (fun _ _ => (∃ disk, lost disk) ∨ ¬ layout.Writable) ({ root := layout.root }, disk) := by
  rw [install, ends_get_bind, ordered_contents]
  rw [ends_bind, onDisk, ends_within]
  refine stores.imp (fun _ disk so => ?_) fun _ disk lost => .inl ⟨disk, lost⟩
  obtain ⟨fits, put⟩ := shows disk so
  rw [ends_bind, onDisk, ends_within]
  refine (removeAll_ends fits fun name member => (members name).mpr (.inr member)).imp
    ?_ fun _ _ => .inr
  rintro _ after ⟨done, alters⟩
  refine ⟨disk, so, alters, done.fits, fun name member => ?_⟩
  by_cases away : name ∈ removed
  · rw [done.bytes name member away, gone name away]
  · rw [done.toTouches.bytes member away,
      put name (((members name).mp member).resolve_right away)]

end Worktree
end Whittle
