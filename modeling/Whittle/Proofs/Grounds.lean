import Whittle.Proofs.Bookkeeping
import Whittle.Proofs.Trial

/-!
Grounds: where the files of a project lie and, apart from them, where a run keeps its
records. Records are kept without any file being touched, and files are written without
the way to the records being lost (`Grounds.Fits.tends`, `Grounds.Fits.alters`).
-/

namespace Whittle

/-- A layout of files, and a margin apart from it with the records that are kept at some paths. All
names of the layout lead down from the root. -/
structure Grounds extends Layout where
  margin : Margin
  records : List Path
  inner : ∀ name ∈ names, Path.IsInner name
  seats : ∀ name ∈ names, margin.has (seat name) = false
  spares : ∀ name ∈ names, margin.has (toLayout.spare name) = false

namespace Grounds

/-- A disk has the files of the grounds where they belong, with no way to them through the margin,
and the records in the margin, where there are no links. -/
structure Fits (grounds : Grounds) (disk : Disk) : Prop where
  files : grounds.toLayout.Fits (disk.without grounds.margin)
  linkless : grounds.margin.Linkless disk
  records : ∀ path ∈ grounds.records, grounds.margin.Holds disk path

variable {grounds : Grounds} {disk before after : Disk} {name : String}
  {shown : String → Option Bytes}

/-- Only the files of the grounds and the margin have changed. -/
structure Alters (grounds : Grounds) (before after : Disk) : Prop where
  home : after.home = before.home
  elsewhere : ∀ place, grounds.margin.has place = false →
    (∀ name ∈ grounds.names, place ≠ grounds.seat name) → after.get? place = before.get? place

namespace Alters

theorem of_layout (alters : grounds.toLayout.Alters before after) : grounds.Alters before after :=
  ⟨alters.home, fun place _ => alters.elsewhere place⟩

/-- The ways past the margin lead through no file. -/
theorem keepsWays (alters : grounds.Alters before after) (fits : grounds.Fits before) :
    Disk.KeepsWays (before.without grounds.margin) (after.without grounds.margin) := by
  have same : ∀ place entry, (before.without grounds.margin).get? place = some entry →
      ¬ Disk.IsFile? (some entry) → (after.without grounds.margin).get? place = some entry := by
    intro place entry found other
    have apart : ∀ name ∈ grounds.names, place ≠ grounds.seat name := by
      rintro name member rfl
      exact other (found ▸ (fits.files.seated name member).file)
    rw [Margin.get?_without_congr alters.home fun out => alters.elsewhere place out apart, found]
  exact ⟨alters.home, fun place dir => same place .dir dir id, fun place target link =>
    same place (.link target) link id⟩

end Alters

namespace Fits

theorem get?_seat (member : name ∈ grounds.names) :
    (disk.without grounds.margin).get? (grounds.seat name) = disk.get? (grounds.seat name) :=
  Margin.get?_without (grounds.seats name member)

theorem get?_spare (member : name ∈ grounds.names) :
    (disk.without grounds.margin).get? (grounds.spare name) = disk.get? (grounds.spare name) :=
  Margin.get?_without (grounds.spares name member)

theorem layout (fits : grounds.Fits disk) : grounds.toLayout.Fits disk where
  seated name member := by
    have seated := fits.files.seated name member
    exact seated.mono (Margin.keepsWays_without _ _) (get?_seat member ▸ seated.file)
  readable name member := get?_seat member ▸ fits.files.readable name member
  free name member := get?_spare member ▸ fits.files.free name member

section

variable (fits : grounds.Fits before)

include fits

/-- Grounds stay fit where the ways past the margin are kept and the layout is fit. -/
theorem mono (keeps : Disk.KeepsWays (before.without grounds.margin) (after.without grounds.margin))
    (linkless : grounds.margin.Linkless after)
    (layout : ∀ name ∈ grounds.names, Disk.IsFile? (after.get? (grounds.seat name)) ∧
      (∀ contents mode, after.get? (grounds.seat name) = some (.file contents mode) →
        mode &&& 0o400 ≠ 0) ∧ after.get? (grounds.spare name) = none) :
    grounds.Fits after where
  files :=
    { seated := fun name member => (fits.files.seated name member).mono keeps
        ((get?_seat member).symm ▸ (layout name member).1)
      readable := fun name member => (get?_seat member).symm ▸ (layout name member).2.1
      free := fun name member => (get?_spare member).trans (layout name member).2.2 }
  linkless := linkless
  records path member := (fits.records path member).mono keeps

theorem tends (tends : grounds.margin.Tends before after) :
    grounds.Fits after := by
  refine fits.mono tends.alters.keepsWays tends.linkless fun name member => ?_
  rw [tends.alters.elsewhere _ (grounds.seats name member),
    tends.alters.elsewhere _ (grounds.spares name member)]
  have layout := fits.layout
  exact ⟨(layout.seated name member).file, layout.readable name member, layout.free name member⟩

theorem alters (layout : grounds.toLayout.Fits after)
    (alters : grounds.toLayout.Alters before after) : grounds.Fits after := by
  refine fits.mono ((Alters.of_layout alters).keepsWays fits) ?_ ?_
  · exact fun place target member => fits.linkless place target (alters.links place target member)
  · exact fun name member =>
      ⟨(layout.seated name member).file, layout.readable name member, layout.free name member⟩

end

end Fits

/-- Keeping records does not show on the files. -/
theorem shows_of_tends (tends : grounds.margin.Tends before after)
    (shows : grounds.toLayout.Shows before shown) : grounds.toLayout.Shows after shown := by
  intro name member
  rw [← shows name member, Layout.bytes, tends.alters.elsewhere _ (grounds.seats name member),
    Layout.bytes]

/-- The disk may change in any way in which the grounds stay fit. -/
def drift (grounds : Grounds) : grounds.toLayout.Drift where
  drifts before after := grounds.Fits before → grounds.Fits after
  alters _ layout alters fits := fits.alters layout alters
  trans first second fits := second (first fits)

end Grounds
end Whittle
