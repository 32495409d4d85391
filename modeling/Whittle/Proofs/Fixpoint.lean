import Whittle.Proofs.Invariant
import Whittle.Proofs.Search.Fixpoint

/-!
A reported fixpoint is genuine: where the driver answers by the bytes of the files alone, no
candidate of any pass, made anew for the project that a run ends with, would be accepted.
-/

namespace Whittle

section Fixpoint

def Layout.reading (layout : Layout) (disk : Disk) (name : String) : Option Bytes :=
  if name ∈ layout.names then (disk.read (layout.root.child name)).toOption else none

theorem Layout.Fits.reading_eq {layout : Layout} {shown : String → Option Bytes} {disk : Disk}
    (fits : layout.Fits disk) (shows : layout.Shows disk shown)
    (only : ∀ name, name ∉ layout.names → shown name = none) : layout.reading disk = shown := by
  funext name
  rw [Layout.reading]
  split
  · next member =>
    have shows := shows name member
    cases read : disk.read (layout.root.child name) with
    | ok data => exact (shows.symm.trans ((fits.read_eq_ok_iff member).mp read)).symm
    | error fault =>
      cases found : shown name with
      | none => rfl
      | some data =>
        cases read.symm.trans ((fits.read_eq_ok_iff member).mpr (shows.trans found))
  · next out => exact (only name out).symm

theorem Grounds.Bears.overlay_eq_none {grounds : Grounds} {project : Project} {parsers : Parsers}
    {candidate : Candidate} {buffers : Project.Buffers} (bears : grounds.Bears project)
    (applied : project.apply parsers candidate = .ok buffers) (name : String)
    (out : name ∉ grounds.names) :
    Listing.overlay buffers.contents (project.contents.get?) name = none := by
  have untracked : project.tracks name = false :=
    Bool.eq_false_iff.mpr fun tracked => out (bears.tracked name tracked)
  have unchanged : buffers.contents.get? name = none := by
    refine Option.not_isSome_iff_eq_none.mp fun changed => ?_
    exact out (bears.tracked name
      ((Project.suits_of_apply applied).tracked name (Listing.mem_names_iff.mpr changed)))
  rw [Listing.overlay, unchanged]
  rw [Project.tracks_eq] at untracked
  simpa using untracked

variable {grounds : Grounds} {host : Host} {engine after : Engine} {result : Result}

/-- A reported fixpoint is genuine. A run works on files that have their places on the grounds, apart
from the records that it keeps, and the driver leaves them alone and answers by their bytes. If it
reports a fixpoint, wherever it began, then for every pass of the catalog and every target of it, each
candidate that the pass makes there for the final project does not parse, does not make the project
smaller, or makes of the files something on which the bug does not reproduce. -/
theorem Run.perform_fixpoint (run : Run) (answer : (String → Option Bytes) → Bool)
    (apart : run.Apart grounds host engine) (ran : (run.perform host).runOn engine = (.ok result, after))
    (fixpoint : result.status = .fixpoint)
    (answers : ∀ hearing ∈ after.judge.hearings,
      hearing.verdict.reproduces = answer (grounds.toLayout.reading hearing.disk)) :
    result.project.IsFixpoint host.parsers (fun shown => answer shown = false) engine.passes := by
  have ends : (run.perform host).Ends
      (fun result after => result.status = .fixpoint → grounds.Bears result.project ∧
        result.project.IsFixpoint host.parsers (grounds.toLayout.Refutes after.judge.hearings)
          engine.passes)
      (fun _ _ => True) engine := by
    refine perform_ends apart (fun result after interrupted _ fixpoint => ?_)
      (fun _ _ => trivial) fun progress begun begins =>
        Engine.search_ends_fixpoint apart.undisturbed apart.writable begins.toUpholds begins.untold
    cases interrupted.symm.trans fixpoint
  obtain ⟨bears, known⟩ := (Step.ends_ok ran).mp ends fixpoint
  intro index pass listed target member
  refine (known index pass listed target member).imp fun candidate buffers applied refutes => ?_
  obtain ⟨hearing, heard, not, tells⟩ := refutes
  rw [← tells.fits.reading_eq tells.shows (bears.overlay_eq_none applied), ← answers hearing heard]
  exact not

end Fixpoint

/-! ### Fixpoints of the small project -/

namespace Sample

/-- Whether a file holds the first line of the small project. -/
def keeps (shown : String → Option Bytes) : Bool :=
  (shown "a").any (·.contains 120)

/-- A driver that reproduces the bug where the first line is there. -/
def picky : Host :=
  { host with
    launch := fun _ _ _ disk =>
      { disk, start := .running false { exit := if keeps (layout.reading disk) then 0 else 1 } } }

theorem picky_undisturbed (drift : layout.Drift) : layout.Undisturbed drift picky "driver" {} :=
  ⟨(layout_undisturbed drift).launch, (layout_undisturbed drift).prepare,
    (layout_undisturbed drift).cleanup⟩

/-- The small project is reduced to its first line, and no candidate is left that helps. -/
theorem perform_fixpoint_lines : ∃ result after,
    ((Run.fresh root [.text "a"]).perform picky).runOn engine = (.ok result, after) ∧
      Listing.get? result.project.contents "a" = some [120, 10] ∧
      result.project.IsFixpoint picky.parsers (fun shown => keeps shown = false)
        [.removeLines] := by
  have ends : ((Run.fresh root [.text "a"]).perform picky).Ends
      (fun result after => result.status = .fixpoint ∧
        Listing.get? result.project.contents "a" = some [120, 10] ∧
        ∀ hearing ∈ after.judge.hearings,
          hearing.verdict.reproduces = keeps (layout.reading hearing.disk))
      (fun _ _ => False) engine := by
    decide +kernel
  obtain ⟨result, after, ran, fixpoint, left, answers⟩ := ends.exists_ok
  have apart : (Run.fresh root [.text "a"]).Apart grounds picky engine :=
    ⟨rfl, rfl, grounds_fits, rfl, fresh_suits (by decide +kernel), picky_undisturbed _, layout_writable⟩
  exact ⟨result, after, ran, left, Run.perform_fixpoint _ keeps apart ran fixpoint answers⟩

/-- Two files in a directory whose name could be that of a snapshot. -/
def lodged : Layout where
  root := Path.ofText "000001"
  names := ["a", "b"]
  seat name := ["work", "000001", name]
  apart := by simp
  clear := by decide +kernel

/-- A driver that reproduces the bug where the second file is there. -/
def paired : Host :=
  { host with
    launch := fun _ _ _ disk =>
      { disk, start := .running false { exit := if (lodged.reading disk "b").isSome then 0 else 1 } } }

/-- An engine that keeps one snapshot at a time, in the directory around the project. -/
def around : Engine :=
  { engine with
    archive := { directory := Path.ofText ".", retention := .int 1 }
    world :=
      { disk :=
          { home := ["work"]
            entries := [(["work", "000001"], .dir),
              (["work", "000001", "a"], .file (.ofBytes lines) Disk.newMode),
              (["work", "000001", "b"], .file (.ofBytes []) Disk.newMode)] } } }

/-- A run whose project lies among its snapshots can report a fixpoint that is none. The driver
changes nothing and answers by the files alone. But the project is taken for an old snapshot and
removed, so that one file is missing whenever a candidate for the other is on disk, and what would
be of use is refused. -/
theorem perform_around_misses :
    (∀ count disk, (paired.launch lodged.root "driver" count disk).disk = disk) ∧
    ∃ result after,
      ((Run.fresh lodged.root [.text "a", .text "b"]).perform paired).runOn around =
        (.ok result, after) ∧
      result.status = .fixpoint ∧
      (∀ hearing ∈ after.judge.hearings,
        hearing.verdict.reproduces = (lodged.reading hearing.disk "b").isSome) ∧
      ¬ result.project.IsFixpoint paired.parsers (fun shown => (shown "b").isSome = false)
        around.passes := by
  have ends : ((Run.fresh lodged.root [.text "a", .text "b"]).perform paired).Ends
      (fun result after => result.status = .fixpoint ∧
        (∀ hearing ∈ after.judge.hearings,
          hearing.verdict.reproduces = (lodged.reading hearing.disk "b").isSome) ∧
        some "a" ∈ Session.targets .removeLines result.project ∧
        ¬ Pass.removeLines.Exhausted paired.parsers (fun shown => (shown "b").isSome = false)
          result.project 0 (some "a"))
      (fun _ _ => False) around := by
    decide +kernel
  obtain ⟨result, after, ran, fixpoint, answers, target, left⟩ := ends.exists_ok
  exact ⟨fun _ _ => rfl, result, after, ran, fixpoint, answers,
    fun all => left (all 0 .removeLines rfl _ target)⟩

end Sample
end Whittle
