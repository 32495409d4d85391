import Whittle.Disk

/-!
What stands where after a change of the disk. The directories above `home` are always
there, so a change is seen at a place only if it is none of them.
-/

namespace Whittle.Disk

open List

variable {disk : Disk} {place other top : Place} {entry : Entry}

def IsFixed (disk : Disk) (place : Place) : Prop :=
  place.isPrefixOf disk.home = true

theorem get?_of_isFixed (fixed : disk.IsFixed place) : disk.get? place = some .dir :=
  if_pos fixed

theorem not_isFixed (found : disk.get? place ≠ some .dir) : ¬ disk.IsFixed place :=
  fun fixed => found (get?_of_isFixed fixed)

theorem get?_of_not_isFixed (free : ¬ disk.IsFixed place) :
    disk.get? place = (disk.entries.find? (isPlace place place.length ·.1)).map Prod.snd :=
  if_neg free

/-- What a change leaves of the entries is what is found, if it concerns other places. -/
theorem get?_congr {entries : List (Place × Entry)}
    (same : entries.find? (isPlace place place.length ·.1) =
      disk.entries.find? (isPlace place place.length ·.1)) :
    { disk with entries }.get? place = disk.get? place := by
  by_cases fixed : disk.IsFixed place
  · exact (if_pos fixed).trans (get?_of_isFixed fixed).symm
  · rw [get?_of_not_isFixed fixed, ← same]
    exact if_neg fixed

theorem isPlace_eq_false (apart : other ≠ place) : isPlace place place.length other = false :=
  Bool.eq_false_iff.mpr fun found => apart ((isPlace_length_iff place other).mp found)

theorem find?_filter_of_imp {α : Type} {wanted kept : α → Bool} {items : List α}
    (imp : ∀ item, wanted item = true → kept item = true) :
    (items.filter kept).find? wanted = items.find? wanted := by
  rw [find?_filter]
  congr 1
  funext item
  by_cases is : wanted item = true
  · simp [is, imp item is]
  · simp [is]

/-! ### Single places -/

theorem get?_put_self (free : ¬ disk.IsFixed place) : (disk.put place entry).get? place = some entry := by
  have free : ¬ (disk.put place entry).IsFixed place := free
  rw [get?_of_not_isFixed free]
  simp [put, isPlace]

theorem get?_put_of_ne (apart : other ≠ place) : (disk.put place entry).get? other = disk.get? other := by
  refine get?_congr ?_
  rw [find?_cons_of_neg (by simp [isPlace_eq_false apart.symm]), others]
  refine find?_filter_of_imp fun item found => ?_
  rw [(isPlace_length_iff _ _).mp found, isPlace_eq_false apart]
  rfl

theorem get?_erase_self (free : ¬ disk.IsFixed place) : (disk.erase place).get? place = none := by
  have free : ¬ (disk.erase place).IsFixed place := free
  rw [get?_of_not_isFixed free]
  simp [erase, others]

theorem get?_erase_of_ne (apart : other ≠ place) : (disk.erase place).get? other = disk.get? other := by
  refine get?_congr (find?_filter_of_imp fun item found => ?_)
  rw [(isPlace_length_iff _ _).mp found, isPlace_eq_false apart]
  rfl

/-! ### Links -/

def AddsNoLinks (before after : Disk) : Prop :=
  ∀ place target, (place, Entry.link target) ∈ after.entries → (place, .link target) ∈ before.entries

theorem AddsNoLinks.refl (disk : Disk) : AddsNoLinks disk disk :=
  fun _ _ member => member

theorem AddsNoLinks.trans {first second third : Disk} (one : AddsNoLinks first second)
    (more : AddsNoLinks second third) : AddsNoLinks first third :=
  fun place target member => one place target (more place target member)

theorem addsNoLinks_erase (disk : Disk) (place : Place) : AddsNoLinks disk (disk.erase place) :=
  fun _ _ member => (mem_filter.mp member).1

theorem addsNoLinks_put (disk : Disk) (place : Place) {contents : Contents} {mode : Nat} :
    AddsNoLinks disk (disk.put place (.file contents mode)) := by
  intro other target member
  rcases mem_cons.mp member with same | old
  · cases same
  · exact (mem_filter.mp old).1

/-! ### Trees -/

theorem get?_eraseTree_of_not_below (apart : ¬ top <+: place) :
    (disk.eraseTree top).get? place = disk.get? place := by
  refine get?_congr (find?_filter_of_imp fun item found => ?_)
  rw [(isPlace_length_iff _ _).mp found, Bool.not_eq_true', Bool.eq_false_iff]
  exact fun below => apart ( isPrefixOf_iff_prefix.mp below)

theorem get?_eraseTree_of_below (free : ¬ disk.IsFixed place) (below : top <+: place) :
    (disk.eraseTree top).get? place = none := by
  have free : ¬ (disk.eraseTree top).IsFixed place := free
  rw [get?_of_not_isFixed free, Option.map_eq_none_iff, find?_eq_none]
  intro item member found
  have kept := (mem_filter.mp member).2
  rw [(isPlace_length_iff _ _).mp found] at kept
  simp [ isPrefixOf_iff_prefix.mpr below] at kept

/-- What is left after a tree was taken away was there before. -/
theorem get?_of_get?_eraseTree (found : (disk.eraseTree top).get? place = some entry) :
    disk.get? place = some entry := by
  by_cases fixed : disk.IsFixed place
  · rw [get?_of_isFixed fixed]
    exact (if_pos fixed : (disk.eraseTree top).get? place = some .dir).symm.trans found
  · by_cases below : top <+: place
    · rw [get?_eraseTree_of_below fixed below] at found
      cases found
    · rwa [get?_eraseTree_of_not_below below] at found

/-- A tree that is moved leaves alone what is neither in it nor where it goes. -/
theorem get?_moveTree_of_not_below {source target : Place} (noSource : ¬ source <+: place)
    (noTarget : ¬ target <+: place) : (disk.moveTree source target).get? place = disk.get? place := by
  refine get?_congr ?_
  have notMoved : ((disk.entries.filter fun entry => source.isPrefixOf entry.1).map fun entry =>
      (target ++ entry.1.drop source.length, entry.2)).find? (isPlace place place.length ·.1) = none := by
    rw [find?_eq_none]
    intro entry member found
    obtain ⟨old, -, rfl⟩ := mem_map.mp member
    exact noTarget ((isPlace_length_iff _ _).mp found ▸ prefix_append target _)
  rw [find?_append, notMoved, Option.none_or]
  refine find?_filter_of_imp fun item found => ?_
  rw [(isPlace_length_iff _ _).mp found, Bool.and_eq_true, Bool.not_eq_true', Bool.not_eq_true',
    Bool.eq_false_iff, Bool.eq_false_iff]
  exact ⟨fun is => noSource ( isPrefixOf_iff_prefix.mp is),
    fun is => noTarget ( isPrefixOf_iff_prefix.mp is)⟩

/-- What stands somewhere is among the entries, unless it is a directory. -/
theorem mem_of_get? (found : disk.get? place = some entry) (other : entry ≠ .dir) :
    (place, entry) ∈ disk.entries := by
  have free : ¬ disk.IsFixed place := fun fixed =>
    other (Option.some.inj (found.symm.trans (get?_of_isFixed fixed)))
  rw [get?_of_not_isFixed free, Option.map_eq_some_iff] at found
  obtain ⟨⟨there, _⟩, found, rfl⟩ := found
  have same : there = place := (isPlace_length_iff place there).mp (find?_some found :)
  exact same ▸ mem_of_find?_eq_some found

end Whittle.Disk
