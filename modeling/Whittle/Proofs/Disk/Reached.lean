import Mathlib.Data.List.Induction
import Whittle.Proofs.Disk.Opened

/-!
Places that paths into a margin reach. A path that leads into the margin ends at a place that is
known beforehand, whatever stands there (`Margin.Reaches`). Making the directory at its end changes
places on the way there only, and once the directory is made the path opens it
(`Margin.Reaches.opens_of_makeDirs`).
-/

namespace Whittle

open List

variable {disk before after : Disk} {path : Path} {folder : Place} {aim : Disk.Aim} {name : String}
  {more : List String}

namespace Disk

theorem KeepsWays.without (keeps : KeepsWays before after) (margin : Margin) :
    KeepsWays (before.without margin) (after.without margin) :=
  ⟨keeps.home, fun place => Margin.get?_without_mono keeps.home (fun _ => id) (keeps.dirs place),
    fun place target => Margin.get?_without_mono keeps.home (fun _ => id) (keeps.links place target)⟩

theorem Grows.keepsWays (grows : Grows before after) : KeepsWays before after :=
  ⟨grows.home, fun _ => grows.kept, fun _ _ => grows.kept⟩

/-- A directory that was made stands where its path leads. -/
theorem located_of_makeDir (made : disk.makeDir path = .ok after) :
    unusable? path.text = none ∧ ∃ place, disk.lookUp .entry path = .ok place ∧
      disk.get? place = none ∧ after = disk.put place .dir := by
  obtain ⟨place, located, rest⟩ := of_makeDir made
  obtain ⟨usable, leads⟩ := atPath_eq_ok_iff.mp located
  exact ⟨usable, place, leads, rest⟩

theorem isDir_of_forgive {fault : Fault} (forgiven : disk.forgive path fault = .ok ()) :
    disk.isDir path = .ok true := by
  obtain ⟨is, asked, forgiven⟩ := bind_eq_ok_iff.mp forgiven
  cases is with
  | true => exact asked
  | false => cases forgiven

theorem lookUp_of_isDir (is : disk.isDir path = .ok true) : unusable? path.text = none ∧
      ∃ place, disk.lookUp .target path = .ok place ∧ disk.get? place = some .dir := by
  rw [isDir, status] at is
  split at is
  · cases is
  · next usable =>
    refine ⟨by simpa using usable, ?_⟩
    rcases leads : disk.lookUp .target path with code | place
    · rw [leads] at is
      dsimp only at is
      split at is <;> cases is
    · rw [leads] at is
      refine ⟨place, rfl, ?_⟩
      simpa [Except.map] using is

/-- Where a directory and those above it were made, the last was made at last, or it was there. -/
theorem of_makeDirs (ends : disk.makeDirs true path = (.ok (), after)) :
    after.isDir path = .ok true ∨ ∃ above, above.makeDir path = .ok after ∧ (above = disk ∨
      (∃ operands, disk.makeDir path = .error (.met .notFound operands)) ∧
        above = (disk.makeDirs true path.parent).2) := by
  rw [makeDirs] at ends
  split at ends
  · next is =>
    cases ends
    exact .inr ⟨disk, is, .inl rfl⟩
  · cases ends
  · cases ends
  · next operands missing =>
    split at ends
    · cases ends
    · rcases first : disk.makeDirs true path.parent with ⟨fault | _, above⟩
      · rw [first] at ends
        cases ends
      · rw [first] at ends
        dsimp only at ends
        split at ends
        · next is =>
          cases ends
          exact .inr ⟨above, is, .inr ⟨⟨operands, missing⟩, rfl⟩⟩
        · obtain ⟨forgiven, rfl⟩ := Prod.mk.inj ends
          exact .inl (isDir_of_forgive forgiven)
  · obtain ⟨forgiven, rfl⟩ := Prod.mk.inj ends
    exact .inl (isDir_of_forgive forgiven)

theorem usable_of_makeDirs (ends : disk.makeDirs true path = (.ok (), after)) :
    unusable? path.text = none ∧ Text.exceeds pathLimit path.text = false := by
  rcases of_makeDirs ends with is | ⟨above, made, -⟩
  · obtain ⟨usable, place, leads, -⟩ := lookUp_of_isDir is
    exact ⟨usable, (lookUp_eq_ok_iff.mp leads).1⟩
  · obtain ⟨usable, place, leads, -⟩ := located_of_makeDir made
    exact ⟨usable, (lookUp_eq_ok_iff.mp leads).1⟩

theorem passable_of_makeDirs (ends : disk.makeDirs true path = (.ok (), after)) :
    path.Passable [] := by
  obtain ⟨usable, short⟩ := usable_of_makeDirs ends
  have same : path.down [] = path := by simp [Path.down]
  exact ⟨by rw [same, usable], by rw [same, short], by simp⟩

/-- Where names arrive at a directory that was made, it is there. -/
theorem dir_of_makeDirs {left : Nat} (ends : disk.makeDirs true path = (.ok (), after))
    (arrives : after.arrive linkLimit (after.startOf path) path.names = some (left, folder)) :
    after.get? folder = some .dir := by
  rcases of_makeDirs ends with is | ⟨above, made, -⟩
  · obtain ⟨-, place, leads, dir⟩ := lookUp_of_isDir is
    cases (lookUp_eq_ok_iff.mp leads).2.symm.trans (walk_target_of_arrive arrives)
    exact dir
  · have keeps := (grows_makeDir made).keepsWays
    obtain ⟨-, place, leads, none, rfl⟩ := located_of_makeDir made
    have dir : (above.put place .dir).get? place = some .dir :=
      get?_put_self (not_isFixed (by simp [none]))
    obtain ⟨found, walks, which⟩ := walk_of_arrive arrives
    cases (lookUp_eq_ok_iff.mp (lookUp_mono keeps leads)).2.symm.trans walks
    rcases which with rfl | ⟨target, link⟩
    · exact dir
    · cases link.symm.trans dir

end Disk

namespace Margin

open Disk (Place IsPlain KeepsWays)

variable {margin : Margin} {place : Place}

namespace Reaches

section

variable (reaches : margin.Reaches disk path place)

include reaches

section

variable (linkless : margin.Linkless disk)

include linkless

theorem puts_of_alter {change : Contents → Contents} (altered : disk.alter path change = .ok after) :
    Disk.IsFile? (disk.get? place) ∧
      ∃ contents mode, Disk.Puts disk place (some (.file contents mode)) after := by
  obtain ⟨found, contents, mode, located, notDir, rfl⟩ := Disk.of_alter altered
  obtain rfl := reaches.eq_of_lookUp linkless (Disk.atPath_eq_ok_iff.mp located).2
  refine ⟨?_, _, _, Disk.puts_put _ _ notDir⟩
  rcases stands : disk.get? found with _ | ⟨contents, mode⟩ | _ | target
  · trivial
  · trivial
  · exact absurd stands notDir
  · exact absurd stands (linkless.get?_ne reaches.has target)

theorem opens {found : Place} (tree : disk.IsTree)
    (outside : ∀ more, more ≠ [] → ¬ disk.IsFixed (place ++ more))
    (leads : disk.lookUp aim path = .ok found) (dir : disk.get? place = some .dir) :
    disk.Opens path place := by
  have inner : ∀ other, (inside place).has other = true → margin.has other = true := by
    intro other is
    obtain ⟨more, -, rfl⟩ := inside_iff.mp is
    exact margin.below place more reaches.has
  obtain ⟨way, names, left, above, arrives, whole, rfl, named, plain, inside⟩ := reaches.exists_way
  refine ⟨⟨left, ?_⟩, outside⟩
  have fits : ∀ name ∈ names, Text.exceeds Disk.nameLimit name = false := by
    have arrives := Disk.arrive_mono (keepsWays_without margin disk) arrives
    obtain ⟨-, leads⟩ := Disk.lookUp_eq_ok_iff.mp leads
    rw [whole, Disk.walk_append_of_arrive named (Disk.ne_asks plain) arrives] at leads
    refine (Disk.walk_down plain (fun shorter deeper below target => ?_) leads).2
    exact linkless.get?_ne (inside shorter deeper below) target
  have dir' : (disk.without (.inside (above ++ names))).get? (above ++ names) = some .dir := by
    rw [get?_without (Bool.eq_false_iff.mpr (by simp)), dir]
  rw [whole, Disk.arrive_append (keepsWays_without_mono inner disk) arrives]
  exact (tree.without (.inside (above ++ names))).arrive_down plain fits dir'

/-- Making the directory changes only the place and those above it. -/
theorem get?_makeDirs (existing : Bool) {other : Place} (apart : ¬ other <+: place) :
    (disk.makeDirs existing path).2.get? other = disk.get? other := by
  have upward : ∀ path operands, disk.makeDir path = .error (.met .notFound operands) →
      (∃ place, margin.Reaches disk path place ∧ ¬ other <+: place) →
      ∃ place, margin.Reaches disk path.parent place ∧ ¬ other <+: place := by
    rintro path operands missing ⟨place, reaches, apart⟩
    exact ⟨place.dropLast, reaches.parent ⟨operands, missing⟩, fun is =>
      apart (is.trans ( dropLast_prefix place))⟩
  have makes : ∀ path before after,
      before = disk ∨ (∃ operands, disk.makeDir path = .error (.met .notFound operands)) →
      (∃ place, margin.Reaches disk path place ∧ ¬ other <+: place) →
      margin.Tends disk before ∧ before.get? other = disk.get? other → before.makeDir path = .ok after →
      margin.Tends disk after ∧ after.get? other = disk.get? other := by
    rintro path before after - ⟨place, reaches, apart⟩ ⟨tends, same⟩ made
    have reaches := reaches.mono tends.alters.keepsWays
    refine ⟨tends.trans (tends_makeDir (reaches.holds.leads tends.linkless) tends.linkless made), ?_⟩
    obtain ⟨-, found, leads, -, rfl⟩ := Disk.located_of_makeDir made
    rw [Disk.get?_put_of_ne, same]
    rintro rfl
    exact apart (reaches.eq_of_lookUp tends.linkless leads ▸ prefix_refl _)
  exact (Disk.makeDirs_induction upward makes ⟨.refl linkless, rfl⟩ existing path
    ⟨place, reaches, apart⟩).2

/-- Once the directory is made, the path opens it. -/
theorem opens_of_makeDirs (tree : disk.IsTree)
    (outside : ∀ more, more ≠ [] → ¬ disk.IsFixed (place ++ more))
    (ends : disk.makeDirs true path = (.ok (), after)) : after.Opens path place := by
  have tends := tends_makeDirs reaches.holds linkless true
  have tree' := tree.makeDirs true path
  rw [ends] at tends tree'
  have outside' : ∀ more, more ≠ [] → ¬ after.IsFixed (place ++ more) := by
    intro more deeper fixed
    refine outside more deeper ?_
    rw [Disk.IsFixed, ← tends.alters.home]
    exact fixed
  have reaches' := reaches.mono tends.alters.keepsWays
  have made : ∀ {disk : Disk}, margin.Reaches disk path place → margin.Linkless disk →
      disk.makeDir path = .ok after → after.Opens path place := by
    intro disk reaches linkless made
    obtain ⟨-, found, leads, none, put⟩ := Disk.located_of_makeDir made
    obtain rfl := reaches.eq_of_lookUp linkless leads
    have leads := Disk.lookUp_mono (Disk.grows_makeDir made).keepsWays leads
    refine reaches'.opens tends.linkless tree' outside' leads ?_
    rw [put, Disk.get?_put_self (Disk.not_isFixed (by simp [none]))]
  rcases Disk.of_makeDirs ends with is | ⟨above, is, rfl | ⟨missing, rfl⟩⟩
  · obtain ⟨-, found, leads, dir⟩ := Disk.lookUp_of_isDir is
    obtain rfl := reaches'.eq_of_lookUp tends.linkless leads
    exact reaches'.opens tends.linkless tree' outside' leads dir
  · exact made reaches linkless is
  · have tends := tends_makeDirs (reaches.parent missing).holds linkless true
    exact made (reaches.mono tends.alters.keepsWays) tends.linkless is

end

end

end Reaches

theorem Linkless.clear_under
    (linkless : (under (folder ++ [name])).Linkless disk) : disk.Clear folder (name :: more) := by
  rintro shorter deeper ⟨rest, whole⟩ target
  cases shorter with
  | nil => exact absurd rfl deeper
  | cons first others =>
    obtain ⟨rfl, -⟩ := cons.inj whole
    exact linkless.get?_ne (under_iff.mpr ⟨others, by simp⟩) target

end Margin

namespace Disk.Opens

/-- A name in an opened directory, with others after it, leads to where that name does or below. -/
theorem leads_under (opens : disk.Opens path folder)
    (linkless : (Margin.under (folder ++ [name])).Linkless disk)
    (plain : ∀ part ∈ name :: more, IsPlain part) :
    (Margin.under (folder ++ [name])).Leads disk (path.down (name :: more)) := by
  intro aim place leads
  rw [(opens.lookUp_down linkless.clear_under plain (by simp) leads).1]
  exact Margin.under_iff.mpr ⟨more, by simp⟩

theorem makeDirs_self (opens : disk.Opens path folder) (tree : disk.IsTree) (existing : Bool) :
    (disk.makeDirs existing path).2 = disk := by
  obtain ⟨fault, fails, other⟩ := opens.makeDir_fails tree
  exact makeDirs_eq_self fails other existing

/-- What a name in an opened directory leads to after directories were made below it: it was there,
or the name can be looked up. -/
structure MadeBelow (path : Path) (folder : Place) (name : String) (before after : Disk) : Prop where
  tends : (Margin.under (folder ++ [name])).Tends before after
  asked : after.get? (folder ++ [name]) ≠ none →
    before.get? (folder ++ [name]) ≠ none ∨ path.Passable [name]

theorem madeBelow_refl (linkless : (Margin.under (folder ++ [name])).Linkless disk) :
    MadeBelow path folder name disk disk :=
  ⟨.refl linkless, .inl⟩

section

variable (opens : disk.Opens path folder)

include opens

theorem madeBelow_of_makeDir
    (plain : ∀ part ∈ name :: more, IsPlain part) (below : MadeBelow path folder name before disk)
    (made : disk.makeDir (path.down (name :: more)) = .ok after) :
    MadeBelow path folder name before after := by
  have linkless := below.tends.linkless
  refine ⟨below.tends.trans (Margin.tends_makeDir (opens.leads_under linkless plain) linkless made), ?_⟩
  obtain ⟨usable, place, leads, -, rfl⟩ := located_of_makeDir made
  obtain ⟨rfl, short, fits⟩ := opens.lookUp_down linkless.clear_under plain (by simp) leads
  cases more with
  | nil => exact fun _ => .inr ⟨usable, short, fits⟩
  | cons next rest =>
    intro stands
    rw [get?_put_of_ne (by simp)] at stands
    exact below.asked stands

variable (linkless : (Margin.under (folder ++ [name])).Linkless disk)
  (plain : ∀ part ∈ name :: more, IsPlain part) (existing : Bool)

include linkless plain

theorem madeBelow_of_parent
    (parent : MadeBelow path folder name disk
      (disk.makeDirs true (path.down (name :: more)).parent).2) :
    MadeBelow path folder name disk (disk.makeDirs existing (path.down (name :: more))).2 := by
  rw [makeDirs]
  split
  · next made is => exact madeBelow_of_makeDir opens plain (madeBelow_refl linkless) is
  · exact madeBelow_refl linkless
  · exact madeBelow_refl linkless
  · split
    · exact madeBelow_refl linkless
    · generalize disk.makeDirs true (path.down (name :: more)).parent = result at parent
      rcases result with ⟨fault | _, above⟩
      · exact parent
      · dsimp only
        split
        · next made is =>
          have opens' := opens.alters (parent.tends.alters.mono fun _ => Margin.inside_of_under)
          exact madeBelow_of_makeDir opens' plain parent is
        · exact parent
  · exact madeBelow_refl linkless

theorem makeDirs_below (tree : disk.IsTree) :
    MadeBelow path folder name disk (disk.makeDirs existing (path.down (name :: more))).2 := by
  induction more using reverseRecOn generalizing existing with
  | nil =>
    refine madeBelow_of_parent opens linkless plain existing ?_
    rw [Path.parent_down, opens.makeDirs_self tree]
    exact madeBelow_refl linkless
  | append_singleton init last ih =>
    refine madeBelow_of_parent opens linkless plain existing ?_
    rw [← cons_append, ← Path.down_down, Path.parent_down]
    exact ih (fun part member => plain part (mem_append_left [last] member :)) true

end

end Disk.Opens
end Whittle
