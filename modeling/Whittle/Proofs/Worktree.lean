import Whittle.Proofs.Disk.Files
import Whittle.Worktree

/-!
What it does to a disk to write and to remove a file of a working tree: the file's place
changes as asked, and nothing else does, although the file is written beside its place
first.
-/

namespace Whittle

open Disk

open List

namespace Worktree

variable {disk : Disk} {root : Path} {name : String} {seat : Disk.Place} {data : Bytes}

theorem length_temporaryName (name : String) :
    (temporaryName name).length = name.length + 20 := by
  simp only [temporaryName, String.length_append]
  have : ("." : String).length = 1 := by decide
  have : (".grammar-reduce.tmp" : String).length = 19 := by decide
  omega

theorem temporaryName_ne_of_length {other : String} (short : other.length < name.length + 20) :
    temporaryName name ≠ other := by
  rintro rfl
  rw [length_temporaryName] at short
  omega

theorem temporaryName_plain (name : String) : Disk.IsPlain (temporaryName name) := by
  have apart : ∀ other : String, other.length < 20 → temporaryName name ≠ other :=
    fun other short => temporaryName_ne_of_length (by omega)
  refine ⟨?_, apart ".." (by decide)⟩
  simp [isHere, apart "." (by decide), apart "" (by decide)]

/-- The path at which a file is written before it is moved to its place. -/
def temporaryOf (target : Path) : Path :=
  target.withName (temporaryName target.name)

/-- The place at which a file is written before it is moved to its own. -/
def spareOf (seat : Disk.Place) (name : String) : Disk.Place :=
  seat.dropLast ++ [temporaryName name]

/-- The paths that it takes to write a file can be used. -/
structure IsStorable (target : Path) : Prop where
  parentUsable : unusable? target.parent.text = none
  parentShort : Text.exceeds pathLimit target.parent.text = false
  usable : unusable? (temporaryOf target).text = none
  short : Text.exceeds pathLimit (temporaryOf target).text = false
  nameShort : Text.exceeds nameLimit (temporaryName target.name) = false

/-- The mode of a file that is written at a place: that of the file which stands there, if any. -/
def modeFor (disk : Disk) (seat : Disk.Place) : Nat :=
  match disk.get? seat with
  | some (.file _ mode) => mode
  | _ => newMode

section ReplaceFile

variable {target : Path} (posted : disk.Posted target seat)
  (free : disk.get? (spareOf seat target.name) = none)

include posted in
theorem spareOf_ne : spareOf seat target.name ≠ seat := by
  intro same
  have last := posted.eq_concat
  rw [← same, spareOf, dropLast_concat, append_cancel_left_eq] at last
  exact temporaryName_ne_of_length (by omega) (singleton_inj.mp last)

include posted free in
/-- The temporary file is seated beside the file itself, unless its name is not possible. -/
theorem temporary_seated_or :
    disk.Seated (temporaryOf target) (spareOf seat target.name) ∨
      ¬ IsStorable target ∧ ∃ fault, disk.locateFile (temporaryOf target) = .error fault ∧
        disk.locateEntry (temporaryOf target) = .error fault := by
  have plain := temporaryName_plain target.name
  have name : (temporaryOf target).name = temporaryName target.name := by
    simp [Path.name, temporaryOf, Path.withName]
  have noLink : ∀ link, disk.get? (spareOf seat target.name) ≠ some (.link link) := by simp [free]
  have looked : ∀ aim, disk.lookUp aim (temporaryOf target) =
      if Text.exceeds pathLimit (temporaryOf target).text ||
          Text.exceeds nameLimit (temporaryName target.name) then .error .nameTooLong
      else .ok (spareOf seat target.name) :=
    fun _ => lookUp_withName posted.plain posted.leads plain noLink
  rcases usable : unusable? (temporaryOf target).text with _ | fault
  · by_cases long : (Text.exceeds pathLimit (temporaryOf target).text ||
        Text.exceeds nameLimit (temporaryName target.name)) = true
    · refine .inr ⟨fun storable => ?_, .at .nameTooLong (temporaryOf target).text, ?_, ?_⟩
      · simp [storable.short, storable.nameShort] at long
      · rw [locateFile, looked, if_pos long, atPath, usable]
        rfl
      · rw [locateEntry, looked, if_pos long, atPath, usable]
        rfl
    · refine .inl ⟨usable, name.symm ▸ plain, ?_, ?_, ?_⟩
      · rw [looked, if_neg long]
      · rw [spareOf, dropLast_concat, posted.folder]
      · rw [free]
        trivial
  · refine .inr ⟨fun storable => by simp [storable.usable] at usable, fault, ?_, ?_⟩
    · rw [locateFile, atPath, usable]
    · rw [locateEntry, atPath, usable]

include posted in
theorem ensureParent_ends :
    (ensureDir true target.parent).Ends (fun _ after => after = disk)
      (fun _ after => after = disk ∧ ¬ IsStorable target) disk := by
  rcases usable : unusable? target.parent.text with _ | fault
  · by_cases long : Text.exceeds pathLimit target.parent.text = true
    · refine (ends_ensureDir (· = disk) (makeDirs_of_long usable long)).imp (fun _ _ => id)
        fun _ _ same => ⟨same, fun storable => ?_⟩
      rw [storable.parentShort] at long
      cases long
    · have made := posted.makeDirs_parent usable (Bool.eq_false_iff.mpr long)
      have runs : (ensureDir true target.parent).runOn disk = (.ok (), disk) := by
        change (_, _) = _
        rw [made]
        rfl
      rw [ends_ok runs]
  · refine (ends_ensureDir (· = disk) (makeDirs_of_unusable usable)).imp (fun _ _ => id)
      fun _ _ same => ⟨same, fun storable => ?_⟩
    rw [storable.parentUsable] at usable
    cases usable

include posted free in
theorem writeTemporary_ends :
    (change (·.write (temporaryOf target) data)).Ends
      (fun _ written => disk.Seated (temporaryOf target) (spareOf seat target.name) ∧
        written = disk.put (spareOf seat target.name) (.file (.ofBytes data) newMode))
      (fun _ after => after = disk ∧ ¬ IsStorable target) disk := by
  rcases temporary_seated_or posted free with beside | ⟨impossible, fault, fails, -⟩
  · refine ends_change_of ?_ ⟨beside, rfl⟩
    rw [Disk.write, alter_of_located beside.locateFile, free]
  · rw [ends_change]
    refine ⟨fun written wrote => ?_, fun _ _ => ⟨rfl, impossible⟩⟩
    rw [Disk.write, Disk.alter, fails] at wrote
    cases wrote

include posted free in
theorem remove_temporary {after : Disk}
    (removed : disk.removeIfPresent (temporaryOf target) = .ok after) :
    after = disk := by
  rcases temporary_seated_or posted free with beside | ⟨-, fault, -, fails⟩
  · rw [removeIfPresent, remove_of_located beside.posted.locateEntry, free] at removed
    exact (Except.ok.inj removed).symm
  · rw [removeIfPresent, remove, fails] at removed
    dsimp only [bind, Except.bind] at removed
    split at removed
    · exact (Except.ok.inj removed).symm
    · cases removed

include posted free in
/-- What was written beside a file takes its place, and nothing is left there; it fails only where a
directory stands. -/
theorem rename_temporary {written : Disk} {entry : Option Entry} {contents : Contents} {mode : Nat}
    (beside : disk.Seated (temporaryOf target) (spareOf seat target.name))
    (puts : Disk.Puts disk (spareOf seat target.name) entry written)
    (file : entry = some (.file contents mode)) :
    (∃ fault, written.rename (temporaryOf target) target = .error fault ∧ fault.isSystem = true ∧
      disk.get? seat = some .dir) ∨
    ∃ after, written.rename (temporaryOf target) target = .ok after ∧
      Disk.Puts disk seat entry after := by
  subst file
  have apart := spareOf_ne posted
  have keeps := puts.keepsWays beside.file
  have here := beside.mono keeps (by rw [puts.here]; trivial)
  have length : (spareOf seat target.name).length = seat.length := by
    rw [posted.eq_concat, spareOf, dropLast_concat, length_append, length_append]
    rfl
  have renames := here.rename_posted (posted.mono keeps) apart length puts.here
  rw [puts.elsewhere _ apart.symm] at renames
  by_cases dir : disk.get? seat = some .dir
  · rw [if_pos dir] at renames
    exact .inl ⟨_, renames, rfl, dir⟩
  · rw [if_neg dir] at renames
    refine .inr ⟨_, renames, puts.home, ?_, fun other ne => ?_,
      puts.links.trans ((addsNoLinks_erase _ _).trans (addsNoLinks_put _ _))⟩
    · refine get?_put_self fun fixed => dir ?_
      rw [← puts.elsewhere _ apart.symm]
      exact get?_of_isFixed fixed
    · rw [get?_put_of_ne ne]
      by_cases same : other = spareOf seat target.name
      · rw [same, free]
        exact get?_erase_self (not_isFixed (by simp [puts.here]))
      · rw [get?_erase_of_ne same, puts.elsewhere other same]

/-- How writing a file fails where anything may stand in its place: nothing has changed, or the
temporary file is left and the fault is one of the system. -/
def Drafted (disk : Disk) (target : Path) (seat : Disk.Place) (failure : Failure) (after : Disk) :
    Prop :=
  after = disk ∨ failure.system?.isSome = true ∧
    disk.Seated (temporaryOf target) (spareOf seat target.name) ∧
    ∃ contents mode, Disk.Puts disk (spareOf seat target.name) (some (.file contents mode)) after

include posted free in
/-- A file that stood in the place before keeps its mode, and then only a path that cannot be used is
in the way. -/
theorem replaceFile_ends :
    (replaceFile target (temporaryOf target) data).Ends
      (fun _ after => ∃ mode, Disk.Puts disk seat (some (.file (.ofBytes data) mode)) after ∧
        (IsFile? (disk.get? seat) → mode = modeFor disk seat))
      (fun failure after => Drafted disk target seat failure after ∧
        (IsFile? (disk.get? seat) → after = disk ∧ ¬ IsStorable target)) disk := by
  unfold replaceFile
  refine (ensureParent_ends posted).bind ?_ fun _ _ failed => ⟨.inl failed.1, fun _ => failed⟩
  intro _ after same
  subst same
  refine (writeTemporary_ends posted free).bind ?_ fun _ _ failed => ⟨.inl failed.1, fun _ => failed⟩
  rintro _ _ ⟨beside, rfl⟩
  have puts := puts_put (.ofBytes data) newMode beside.file.ne_dir
  generalize after.put _ _ = draft at puts
  have keeps := puts.keepsWays beside.file
  have kept := puts.elsewhere _ (spareOf_ne posted).symm
  have there file : Seated draft target seat := Seated.mono { posted with file } keeps (kept ▸ file)
  have drafted : ∀ {written : Disk} {fault : Disk.Fault} {contents : Contents} {mode : Nat},
      Disk.Puts after (spareOf seat target.name) (some (.file contents mode)) written →
      fault.isSystem = true → ¬ IsFile? (after.get? seat) →
      Drafted after target seat (.disk fault) written ∧
        (IsFile? (after.get? seat) → written = after ∧ ¬ IsStorable target) :=
    fun puts system other =>
      ⟨.inr ⟨by simp [Failure.system?, system], beside, _, _, puts⟩, fun file => absurd file other⟩
  have renames : ∀ {written : Disk} {mode : Nat},
      Disk.Puts after (spareOf seat target.name) (some (.file (.ofBytes data) mode)) written →
      (IsFile? (after.get? seat) → mode = modeFor after seat) →
      (change (·.rename (temporaryOf target) target)).Ends
        (fun _ last => ∃ mode, Disk.Puts after seat (some (.file (.ofBytes data) mode)) last ∧
          (IsFile? (after.get? seat) → mode = modeFor after seat))
        (fun failure last => Drafted after target seat failure last ∧
          (IsFile? (after.get? seat) → last = after ∧ ¬ IsStorable target)) written := by
    intro written mode puts right
    rw [ends_change]
    rcases rename_temporary posted free beside puts rfl with
      ⟨fault, failed, system, dir⟩ | ⟨last, moved, done⟩
    · rw [failed]
      refine ⟨nofun, ?_⟩
      rintro _ ⟨⟩
      exact drafted puts system fun file => file.ne_dir dir
    · rw [moved]
      refine ⟨?_, nofun⟩
      rintro _ ⟨⟩
      exact ⟨_, done, right⟩
  rw [ends_bind, ends_ask]
  refine ⟨fun found asked => ?_, fun fault failed =>
    drafted puts (isSystem_of_pathExists failed) fun file => ?_⟩
  · rw [ends_ite]
    refine ⟨fun some => ?_, fun none => renames puts fun file => ?_⟩
    · have told (file : IsFile? (after.get? seat)) : draft.mode? target = .ok (modeFor after seat) := by
        rcases isFile?_iff.mp file with none | ⟨contents, mode, stands⟩
        · cases (there file).pathExists.symm.trans asked
          simp [kept, none] at some
        · rw [mode?_of_located (there file).locate, kept, modeFor, stands]
      rw [ends_bind, ends_ask]
      refine ⟨fun mode asked => ?_, fun fault failed =>
        drafted puts (isSystem_of_mode? posted.usable failed) fun file => ?_⟩
      · have here := beside.mono keeps (by rw [puts.here]; trivial)
        rw [ends_bind]
        refine ends_change_of (by rw [setMode_of_located here.locate, puts.here]) ?_
        refine renames (puts.again (puts_put (.ofBytes data) mode here.file.ne_dir)) fun file => ?_
        exact Except.ok.inj (asked.symm.trans (told file))
      · cases (told file).symm.trans failed
    · cases (there file).pathExists.symm.trans asked
      rw [kept, Bool.not_eq_true, Option.isSome_eq_false_iff, Option.isNone_iff_eq_none] at none
      rw [modeFor, none]
  · cases (there file).pathExists.symm.trans failed

end ReplaceFile

/-- Writing a file, or removing one, changes what stands in its place, whatever that is, to what was
asked for; if it fails, nothing changes. A file that stood there before keeps its mode, and then it
fails only if there is no path for it. -/
theorem putFile_touches (posted : disk.Posted (root.child name) seat)
    (free : disk.get? (spareOf seat (root.child name).name) = none) (wanted : Option Bytes) :
    (putFile root name wanted).Ends
      (fun _ after => ∃ mode,
        Disk.Puts disk seat (wanted.map fun data => .file (.ofBytes data) mode) after ∧
        (IsFile? (disk.get? seat) → mode = modeFor disk seat))
      (fun _ after => Disk.Puts disk seat (disk.get? seat) after ∧ (IsFile? (disk.get? seat) →
        after = disk ∧ wanted.isSome = true ∧ ¬ IsStorable (root.child name))) disk := by
  have same : Disk.Puts disk seat (disk.get? seat) disk := ⟨rfl, rfl, fun _ _ => rfl, .refl disk⟩
  cases wanted with
  | none =>
    rw [putFile, removeFile, ends_bind, ends_attempt, ends_change]
    refine ⟨fun after removed => ⟨_, posted.removeIfPresent removed, fun _ => rfl⟩, fun fault failed => ?_⟩
    have missing : ¬ IsFile? (disk.get? seat) := by
      intro file
      obtain ⟨after, removed, -⟩ := Seated.removeIfPresent { posted with file }
      cases removed.symm.trans failed
    dsimp only
    split <;> exact ⟨same, fun file => absurd file missing⟩
  | some data =>
    rw [putFile, storeFile]
    rw [if_neg posted.plain.ne_empty, ends_bind, ends_attempt]
    refine (replaceFile_ends posted free).imp (fun _ _ => id) ?_
    rintro failure after ⟨unchanged | ⟨system, beside, contents, mode, puts⟩, stays⟩
    · subst unchanged
      have unstorable file := (stays file).2
      dsimp only
      split
      · rw [ends_bind, ends_attempt, ends_change]
        refine ⟨fun _ removed => ?_, fun _ _ => ⟨same, fun file => ⟨rfl, rfl, unstorable file⟩⟩⟩
        rw [remove_temporary posted free removed]
        exact ⟨same, fun file => ⟨rfl, rfl, unstorable file⟩⟩
      · exact ⟨same, fun file => ⟨rfl, rfl, unstorable file⟩⟩
    · obtain ⟨fault, system⟩ := Option.isSome_iff_exists.mp system
      dsimp only
      rw [system]
      -- the temporary file that was left is taken away
      have here := beside.mono (puts.keepsWays beside.file) (by rw [puts.here]; trivial)
      obtain ⟨last, removed, gone⟩ := here.removeIfPresent
      have unchanged : ∀ other, last.get? other = disk.get? other := by
        intro other
        by_cases spare : other = spareOf seat (root.child name).name
        · rw [spare, gone.here, free]
        · rw [gone.elsewhere other spare, puts.elsewhere other spare]
      rw [ends_bind, ends_attempt]
      refine ends_change_of removed ⟨⟨gone.home.trans puts.home, unchanged seat,
        fun other _ => unchanged other, puts.links.trans gone.links⟩, fun file => ?_⟩
      have left := puts.here
      rw [(stays file).1, free] at left
      cases left

theorem putFiles_cons (root : Path) (file : String × Option Bytes)
    (rest : List (String × Option Bytes)) :
    putFiles root (file :: rest) = (do putFile root file.1 file.2; putFiles root rest) :=
  rfl

end Worktree
end Whittle
