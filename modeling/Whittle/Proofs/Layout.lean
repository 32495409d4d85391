import Whittle.Proofs.Listing
import Whittle.Proofs.Worktree

/-!
Layouts: where the files of a project lie. Each name of a layout leads to a place of its
own, beside which there is room for a temporary file (`Layout.Fits`), so that a file can
be written and removed without any other being touched (`Layout.putFile_ends`). What a
disk shows of a layout is the bytes under its names (`Layout.bytes`).
-/

namespace Whittle

open List

variable {first second third : Disk} {names : List String}

/-- Names below a root, each with the place that it leads to. No two lead to one place, and none
leads to where another file is written before it is moved to its place. -/
structure Layout where
  root : Path
  names : List String
  seat : String → Disk.Place
  apart : ∀ name ∈ names, ∀ other ∈ names, seat name = seat other → name = other
  clear : ∀ name ∈ names, ∀ other ∈ names,
    seat name ≠ Worktree.spareOf (seat other) (root.child other).name

namespace Layout

/-- The place at which a file is written before it is moved to its own. -/
def spare (layout : Layout) (name : String) : Disk.Place :=
  Worktree.spareOf (layout.seat name) (layout.root.child name).name

/-- A disk has the files of a layout where they belong: each name leads to its place, where a
readable file stands or none, and no temporary file is left beside it. -/
structure Fits (layout : Layout) (disk : Disk) : Prop where
  seated : ∀ name ∈ layout.names, disk.Seated (layout.root.child name) (layout.seat name)
  readable : ∀ name ∈ layout.names, ∀ contents mode,
    disk.get? (layout.seat name) = some (.file contents mode) → mode &&& 0o400 ≠ 0
  free : ∀ name ∈ layout.names, disk.get? (layout.spare name) = none

def bytes (layout : Layout) (disk : Disk) (name : String) : Option Bytes :=
  match disk.get? (layout.seat name) with
  | some (.file contents _) => some contents.bytes
  | _ => none

def Shows (layout : Layout) (disk : Disk) (shown : String → Option Bytes) : Prop :=
  ∀ name ∈ layout.names, layout.bytes disk name = shown name

/-- Only what stands at the places of a layout has changed. -/
structure Alters (layout : Layout) (before after : Disk) : Prop where
  home : after.home = before.home
  elsewhere : ∀ place, (∀ name ∈ layout.names, place ≠ layout.seat name) →
    after.get? place = before.get? place
  links : Disk.AddsNoLinks before after

def mode? (layout : Layout) (disk : Disk) (name : String) : Option Nat :=
  match disk.get? (layout.seat name) with
  | some (.file _ mode) => some mode
  | _ => none

/-- The modes once some files were written or, where no bytes are wanted, taken away. -/
def modesAfter (names : List String) (wanted : String → Option Bytes) (modes : String → Option Nat)
    (name : String) : Option Nat :=
  if name ∈ names then (wanted name).map fun _ => (modes name).getD Disk.newMode else modes name

def Wears (layout : Layout) (disk : Disk) (modes : String → Option Nat) : Prop :=
  ∀ name ∈ layout.names, layout.mode? disk name = modes name

/-- The files of all but some names stand as they did. -/
structure Touches (layout : Layout) (names : List String) (before after : Disk) : Prop where
  fits : layout.Fits after
  same : ∀ name ∈ layout.names, name ∉ names →
    after.get? (layout.seat name) = before.get? (layout.seat name)

/-- The files of some names were written or, where no bytes are wanted, taken away; all others stand
as they did. What was written in the place of a file has its mode. -/
structure Writes (layout : Layout) (names : List String) (wanted : String → Option Bytes)
    (before after : Disk) : Prop extends layout.Touches names before after where
  bytes : ∀ name ∈ layout.names, name ∈ names → layout.bytes after name = wanted name
  mode : ∀ name ∈ layout.names, name ∈ names → layout.mode? after name =
    (wanted name).map fun _ => (layout.mode? before name).getD Disk.newMode

/-- Every file of a layout can be written wherever the layout fits. -/
def Writable (layout : Layout) : Prop :=
  ∀ disk, layout.Fits disk → ∀ name ∈ layout.names, ∀ data,
    ∃ after, (Worktree.storeFile layout.root name data).runOn disk = (.ok (), after)

variable {layout : Layout} {disk after : Disk} {name : String} {data : Bytes}
  {shown : String → Option Bytes}

theorem Alters.refl (layout : Layout) (disk : Disk) : layout.Alters disk disk :=
  ⟨rfl, fun _ _ => rfl, .refl disk⟩

theorem Alters.trans (one : layout.Alters first second)
    (other : layout.Alters second third) : layout.Alters first third :=
  ⟨other.home.trans one.home, fun place out =>
    (other.elsewhere place out).trans (one.elsewhere place out), one.links.trans other.links⟩

theorem modeFor_eq (layout : Layout) (disk : Disk) (name : String) :
    Worktree.modeFor disk (layout.seat name) = (layout.mode? disk name).getD Disk.newMode := by
  rw [Worktree.modeFor, mode?]
  rcases disk.get? (layout.seat name) with _ | ⟨_, _⟩ | _ | _ <;> rfl

theorem Touches.refl (fits : layout.Fits disk) (names : List String) : layout.Touches names disk disk :=
  ⟨fits, fun _ _ _ => rfl⟩

theorem Touches.trans
    (one : layout.Touches names first second) (other : layout.Touches names second third) :
    layout.Touches names first third :=
  ⟨other.fits, fun name member out => (other.same name member out).trans (one.same name member out)⟩

section

variable (touches : layout.Touches names disk after)

include touches

theorem Touches.mono {more : List String} (all : names ⊆ more) : layout.Touches more disk after :=
  ⟨touches.fits, fun name member out => touches.same name member fun listed => out (all listed)⟩

theorem Touches.bytes (member : name ∈ layout.names) (out : name ∉ names) :
    layout.bytes after name = layout.bytes disk name := by
  rw [Layout.bytes, touches.same name member out, Layout.bytes]

theorem Touches.mode? (member : name ∈ layout.names) (out : name ∉ names) :
    layout.mode? after name = layout.mode? disk name := by
  rw [Layout.mode?, touches.same name member out, Layout.mode?]

end

namespace Writes

variable {wanted : String → Option Bytes} {modes : String → Option Nat}
  (writes : layout.Writes names wanted disk after)

include writes

theorem shows (shows : layout.Shows disk shown) :
    layout.Shows after fun name => if name ∈ names then wanted name else shown name := by
  intro name member
  dsimp only
  split
  · next listed => exact writes.bytes name member listed
  · next out => exact (writes.toTouches.bytes member out).trans (shows name member)

theorem wears (wears : layout.Wears disk modes) :
    layout.Wears after (modesAfter names wanted modes) := by
  intro name member
  rw [modesAfter, ← wears name member]
  split
  · next listed => exact writes.mode name member listed
  · next out => exact writes.mode? member out

/-- What is left alone afterwards stays written. -/
theorem lasts {last : Disk} (late : layout.Touches [] after last) :
    layout.Writes names wanted disk last where
  toTouches := writes.trans (late.mono (by simp))
  bytes name member listed :=
    (late.bytes member not_mem_nil).trans (writes.bytes name member listed)
  mode name member listed :=
    (late.mode? member not_mem_nil).trans (writes.mode name member listed)

/-- What was left alone before was written as it is. -/
theorem since (early : layout.Touches [] first disk) : layout.Writes names wanted first after where
  toTouches := (early.mono (by simp)).trans writes.toTouches
  bytes := writes.bytes
  mode name member listed := by
    rw [writes.mode name member listed, early.mode? member not_mem_nil]

omit writes in
theorem nil (fits : layout.Fits disk) (wanted : String → Option Bytes) :
    layout.Writes [] wanted disk disk :=
  ⟨.refl fits [], fun _ _ listed => (by cases listed), fun _ _ listed => (by cases listed)⟩

omit writes in
theorem cons {middle : Disk} (first : layout.Writes [name] (fun _ => wanted name) disk middle)
    (rest : layout.Writes names wanted middle after) :
    layout.Writes (name :: names) wanted disk after where
  toTouches := (first.mono (by simp)).trans (rest.mono (by simp))
  bytes other member listed := by
    by_cases later : other ∈ names
    · exact rest.bytes other member later
    · cases (mem_cons.mp listed).resolve_right later
      rw [rest.toTouches.bytes member later, first.bytes name member (mem_singleton.mpr rfl)]
  mode other member listed := by
    -- a file that is written again keeps the mode that it has by then
    by_cases here : other = name
    · cases here
      have mode := first.mode name member (mem_singleton.mpr rfl)
      by_cases later : name ∈ names
      · rw [rest.mode name member later, mode]
        cases wanted name <;> rfl
      · rw [rest.mode? member later, mode]
    · have later := (mem_cons.mp listed).resolve_left here
      rw [rest.mode other member later, first.mode? member (by simpa using here)]

end Writes

section

variable (fits : layout.Fits disk) (member : name ∈ layout.names)

include fits member

theorem Fits.read_eq_ok_iff :
    disk.read (layout.root.child name) = .ok data ↔ layout.bytes disk name = some data := by
  rw [(fits.seated name member).read_eq_ok_iff, bytes]
  constructor
  · rintro ⟨contents, mode, found, -, rfl⟩
    rw [found]
  · intro same
    split at same
    · next contents mode found =>
      exact ⟨contents, mode, found, fits.readable name member contents mode found, Option.some.inj same⟩
    · cases same

/-- Where a layout shows no bytes nothing stands. -/
theorem Fits.pathExists :
    disk.pathExists (layout.root.child name) = .ok (layout.bytes disk name).isSome := by
  have seated := fits.seated name member
  rw [seated.pathExists, bytes]
  rcases Disk.isFile?_iff.mp seated.file with none | ⟨contents, mode, found⟩
  · rw [none]
    rfl
  · rw [found]
    rfl

theorem Fits.puts {entry : Option Entry}
    (puts : Disk.Puts disk (layout.seat name) entry after) (file : Disk.IsFile? entry)
    (readable : ∀ contents mode, entry = some (.file contents mode) → mode &&& 0o400 ≠ 0) :
    layout.Fits after := by
  have keeps := puts.keepsWays (fits.seated name member).file
  have elsewhere : ∀ other ∈ layout.names, other ≠ name →
      after.get? (layout.seat other) = disk.get? (layout.seat other) := fun other member' ne =>
    puts.elsewhere _ fun same => ne (layout.apart other member' name member same)
  refine ⟨fun other member' => ?_, fun other member' contents mode => ?_, fun other member' => ?_⟩
  · refine (fits.seated other member').mono keeps ?_
    by_cases same : other = name
    · rw [same, puts.here]
      exact file
    · rw [elsewhere other member' same]
      exact (fits.seated other member').file
  · by_cases same : other = name
    · rw [same, puts.here]
      exact readable contents mode
    · rw [elsewhere other member' same]
      exact fits.readable other member' contents mode
  · have apart : layout.spare other ≠ layout.seat name :=
      (layout.clear name member other member').symm
    rw [puts.elsewhere _ apart]
    exact fits.free other member'

/-- A change of one file of a layout shows under its name only. -/
theorem Fits.writes {data : Option Bytes} (puts : Disk.Puts disk (layout.seat name)
      (data.map fun data => .file (.ofBytes data) (Worktree.modeFor disk (layout.seat name))) after) :
    layout.Writes [name] (fun _ => data) disk after ∧ layout.Alters disk after := by
  have file : Disk.IsFile?
      (data.map fun data => .file (.ofBytes data) (Worktree.modeFor disk (layout.seat name))) := by
    cases data <;> trivial
  have fits' : layout.Fits after := by
    refine fits.puts member puts file ?_
    cases data with
    | none => simp
    | some data =>
      rintro _ _ ⟨⟩
      rw [Worktree.modeFor]
      split
      · next contents mode found => exact fits.readable name member contents mode found
      · decide
  refine ⟨⟨⟨fits', fun other member' out => puts.elsewhere _ fun seats => ?_⟩, ?_, ?_⟩, puts.home,
    fun place out => puts.elsewhere place (out name member), puts.links⟩
  · exact out (mem_singleton.mpr (layout.apart other member' name member seats))
  · intro other _ listed
    rw [mem_singleton.mp listed, bytes, puts.here]
    cases data <;> rfl
  · intro other _ listed
    rw [mem_singleton.mp listed, mode?, puts.here, modeFor_eq]
    cases data <;> rfl

end

/-- Files can be written if there are paths for them. -/
theorem writable_of_storable
    (storable : ∀ name ∈ layout.names, Worktree.IsStorable (layout.root.child name)) :
    layout.Writable := by
  intro disk fits name member data
  have ends : (Worktree.putFile layout.root name (some data)).Ends (fun _ _ => True) (fun _ _ => False)
      disk :=
    (Worktree.putFile_touches (fits.seated name member).posted (fits.free name member) _).imp
      (fun _ _ _ => trivial) fun _ _ failed =>
        (failed.2 (fits.seated name member).file).2.2 (storable name member)
  obtain ⟨_, after, ran, -⟩ := ends.exists_ok
  exact ⟨after, ran⟩

theorem putFile_ends (fits : layout.Fits disk) (member : name ∈ layout.names) (data : Option Bytes) :
    (Worktree.putFile layout.root name data).Ends
      (fun _ after => layout.Writes [name] (fun _ => data) disk after ∧ layout.Alters disk after)
      (fun _ after => after = disk ∧ ¬ layout.Writable) disk := by
  have seated := fits.seated name member
  have ends := Worktree.putFile_touches seated.posted (fits.free name member) data
  rcases ran : (Worktree.putFile layout.root name data).runOn disk with ⟨failure | _, after⟩
  · obtain ⟨same, given, -⟩ := ((ends_error ran).mp ends).2 seated.file
    rw [ends_error ran]
    refine ⟨same, fun writable => ?_⟩
    obtain ⟨bytes, rfl⟩ := Option.isSome_iff_exists.mp given
    obtain ⟨last, runs⟩ := writable disk fits name member bytes
    cases ran.symm.trans runs
  · obtain ⟨mode, puts, right⟩ := (ends_ok ran).mp ends
    rw [ends_ok ran]
    exact fits.writes member (right seated.file ▸ puts)

/-- Writing and removing some files of a layout shows under their names only, and if it succeeds
then as asked. -/
theorem putFiles_ends (fits : layout.Fits disk)
    (members : ∀ name ∈ names, name ∈ layout.names) (wanted : String → Option Bytes) :
    (Worktree.putFiles layout.root (names.map fun name => (name, wanted name))).Ends
      (fun _ after => layout.Writes names wanted disk after ∧ layout.Alters disk after)
      (fun _ after => layout.Touches names disk after ∧ layout.Alters disk after ∧ ¬ layout.Writable)
      disk := by
  induction names generalizing disk with
  | nil => exact ⟨.nil fits wanted, .refl layout disk⟩
  | cons name rest ih =>
    rw [map_cons, Worktree.putFiles_cons]
    refine (putFile_ends fits (members name mem_cons_self) (wanted name)).bind ?_ ?_
    · rintro _ middle ⟨put, altered⟩
      refine (ih put.fits (forall_mem_cons.mp members).2).imp ?_ ?_
      · exact fun _ after done => ⟨put.cons done.1, altered.trans done.2⟩
      · rintro _ after ⟨touches, alters, impossible⟩
        exact ⟨(put.mono (by simp)).trans (touches.mono (by simp)), altered.trans alters, impossible⟩
    · rintro _ _ ⟨rfl, impossible⟩
      exact ⟨.refl fits _, .refl layout _, impossible⟩

end Layout
end Whittle
