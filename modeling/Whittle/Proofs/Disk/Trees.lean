import Whittle.Proofs.Disk.Margin

/-!
Trees. On a disk that is a tree everything stands in a directory (`Disk.IsTree`), so that
nothing is below what is no directory, and the operations on files and directories leave it
one. What is moved with a directory stands below its new place as it stood below the old one.
-/

namespace Whittle

open List

namespace Disk

def IsTree (disk : Disk) : Prop :=
  ∀ place entry, disk.get? place = some entry → disk.get? place.dropLast = some .dir

variable {disk before after : Disk} {place folder top : Place} {entry : Entry} {path : Path}
  {names more : List String} {name : String} {aim : Aim} {links left : Nat}

theorem get?_nil : disk.get? [] = some .dir :=
  get?_of_isFixed (by cases disk.home <;> rfl)

theorem IsFixed.of_prefix (fixed : disk.IsFixed place) (above : top <+: place) : disk.IsFixed top :=
  isPrefixOf_iff_prefix.mpr (above.trans ( isPrefixOf_iff_prefix.mp fixed))

theorem get?_startOf : disk.get? (disk.startOf path) = some .dir := by
  rw [startOf]
  split
  · exact get?_nil
  · exact get?_of_isFixed ( isPrefixOf_iff_prefix.mpr (prefix_refl _))

/-- What is among the entries of a place is seen there, or is hidden by another entry. -/
theorem get?_ne_none (member : (place, entry) ∈ disk.entries) : disk.get? place ≠ none := by
  intro none
  have free : ¬ disk.IsFixed place := not_isFixed (by simp [none])
  rw [get?_of_not_isFixed free, Option.map_eq_none_iff, find?_eq_none] at none
  exact none _ member ((isPlace_length_iff place place).mpr rfl)

theorem isTree_of_entries
    (all : ∀ entry ∈ disk.entries, disk.get? entry.1.dropLast = some .dir) : disk.IsTree := by
  intro place entry found
  by_cases fixed : disk.IsFixed place
  · exact get?_of_isFixed (fixed.of_prefix ( dropLast_prefix place))
  · rw [get?_of_not_isFixed fixed, Option.map_eq_some_iff] at found
    obtain ⟨⟨there, _⟩, found, -⟩ := found
    have same : there = place := (isPlace_length_iff place there).mp (find?_some found :)
    exact same ▸ all _ (mem_of_find?_eq_some found)

namespace IsTree

section

variable (tree : disk.IsTree)

include tree

theorem dir_above (found : disk.get? (place ++ more) = some entry)
    (deeper : more ≠ []) : disk.get? place = some .dir := by
  induction more generalizing place with
  | nil => exact absurd rfl deeper
  | cons name rest ih =>
    rw [append_cons] at found
    have dir : ∃ entry, disk.get? (place ++ [name]) = some entry := by
      cases rest with
      | nil => exact ⟨entry, by simpa using found⟩
      | cons next rest => exact ⟨_, ih found (by simp)⟩
    obtain ⟨_, stands⟩ := dir
    simpa using tree _ _ stands

theorem get?_below (other : disk.get? place ≠ some .dir) (deeper : more ≠ []) :
    disk.get? (place ++ more) = none := by
  cases found : disk.get? (place ++ more) with
  | none => rfl
  | some entry => exact absurd (tree.dir_above found deeper) other

theorem dir_of_arrive (dir : disk.get? place = some .dir)
    (arrives : disk.arrive links place names = some (left, folder)) :
    disk.get? folder = some .dir := by
  fun_induction arrive disk links place names with
  | case1 links place => cases arrives; exact dir
  | case2 links place name rest here ih => exact ih dir arrives
  | case3 links place rest here ih => exact ih (tree _ _ dir) arrives
  | case4 => cases arrives
  | case5 => cases arrives
  | case6 place name rest here up long target found left' ih =>
    refine ih ?_ arrives
    split
    · exact get?_nil
    · exact dir
  | case7 links place name rest here up long found ih => exact ih found arrives
  | case8 => cases arrives

theorem dir_of_walk {found : Place} (dir : disk.get? place = some .dir)
    (leads : disk.walk aim links place names = .ok found) :
    disk.get? found.dropLast = some .dir := by
  fun_induction arrive disk links place names with
  | case1 links place =>
    rw [walk_nil] at leads
    cases leads
    exact tree _ _ dir
  | case2 links place name rest here ih =>
    rw [walk_cons, if_pos here] at leads
    exact ih dir leads
  | case3 links place rest here ih =>
    rw [walk_cons, if_neg here, if_pos rfl] at leads
    exact ih (tree _ _ dir) leads
  | case4 links place name rest here up long =>
    rw [walk_cons, if_neg here, if_neg up, if_pos long] at leads
    split at leads <;> cases leads
  | case5 place name rest here up long target link =>
    rw [walk_cons, if_neg here, if_neg up, if_neg long] at leads
    simp only [link] at leads
    split at leads
    · cases leads
    · split at leads
      · cases leads
        rwa [dropLast_concat]
      · cases leads
  | case6 place name rest here up long target link left' ih =>
    rw [walk_cons, if_neg here, if_neg up, if_neg long] at leads
    simp only [link] at leads
    split at leads
    · cases leads
    · split at leads
      · cases leads
        rwa [dropLast_concat]
      · refine ih ?_ leads
        split
        · exact get?_nil
        · exact dir
  | case7 links place name rest here up long down ih =>
    rw [walk_cons, if_neg here, if_neg up, if_neg long] at leads
    simp only [down] at leads
    split at leads
    · cases leads
    · exact ih down leads
  | case8 links place name rest here up long noLink noDir =>
    rw [walk_cons, if_neg here, if_neg up, if_neg long] at leads
    have last : found = place ++ [name] := by
      rcases stands : disk.get? (place ++ [name]) with _ | ⟨contents, mode⟩ | _ | target
      · simp only [stands] at leads
        split at leads
        · cases leads
        · split at leads <;> cases leads
          rfl
      · simp only [stands] at leads
        split at leads
        · cases leads
        · split at leads <;> cases leads
          rfl
      · exact absurd stands noDir
      · exact absurd stands (noLink target)
    rwa [last, dropLast_concat]

theorem dir_of_lookUp (leads : disk.lookUp aim path = .ok place) :
    disk.get? place.dropLast = some .dir :=
  tree.dir_of_walk get?_startOf (lookUp_eq_ok_iff.mp leads).2

theorem dir_of_atPath (located : atPath path (disk.lookUp aim path) = .ok place) :
    disk.get? place.dropLast = some .dir :=
  tree.dir_of_lookUp (atPath_eq_ok_iff.mp located).2

/-! ### Operations that leave a tree -/

theorem put (folder : disk.get? place.dropLast = some .dir)
    (free : ¬ disk.IsFixed place) (fits : entry = .dir ∨ disk.get? place ≠ some .dir) :
    (disk.put place entry).IsTree := by
  intro other thing found
  have apart : place.dropLast ≠ place := by
    intro same
    have empty : place = [] := by
      have := congrArg length same
      rw [length_dropLast] at this
      exact length_eq_zero_iff.mp (by omega)
    rw [empty] at free
    exact free (by cases disk.home <;> rfl)
  by_cases here : other = place
  · rw [here, get?_put_of_ne apart, folder]
  · rw [get?_put_of_ne here] at found
    have above := tree other thing found
    by_cases child : other.dropLast = place
    · rcases fits with rfl | not
      · rw [child, get?_put_self free]
      · exact absurd (child ▸ above) not
    · rw [get?_put_of_ne child, above]

theorem eraseTree (top : Place) : (disk.eraseTree top).IsTree := by
  intro there thing found
  have above := tree there thing (get?_of_get?_eraseTree found)
  by_cases fixed : disk.IsFixed there.dropLast
  · have fixed : (disk.eraseTree top).IsFixed there.dropLast := fixed
    exact get?_of_isFixed fixed
  · have free : ¬ disk.IsFixed there := fun is => fixed (is.of_prefix ( dropLast_prefix there))
    have out : ¬ top <+: there := by
      intro under
      rw [get?_eraseTree_of_below free under] at found
      cases found
    rw [get?_eraseTree_of_not_below fun under => out (under.trans ( dropLast_prefix there)), above]

theorem alter {change : Contents → Contents}
    (altered : disk.alter path change = .ok after) : after.IsTree := by
  obtain ⟨place, contents, mode, located, other, rfl⟩ := of_alter altered
  exact tree.put (tree.dir_of_atPath located) (not_isFixed other) (.inr other)

theorem makeDir (made : disk.makeDir path = .ok after) : after.IsTree := by
  obtain ⟨place, located, none, rfl⟩ := of_makeDir made
  exact tree.put (tree.dir_of_atPath located) (not_isFixed (by simp [none])) (.inl rfl)

theorem makeDirs (existing : Bool) (path : Path) : (disk.makeDirs existing path).2.IsTree :=
  makeDirs_keeps (fun _ _ _ so made => so.makeDir made) tree existing path

theorem removeTree (removed : disk.removeTree path = .ok after) : after.IsTree := by
  obtain ⟨place, -, rfl⟩ := of_removeTree removed
  exact tree.eraseTree place

end

end IsTree

/-! ### Moved trees -/

section MoveTree

variable {source target : Place}

theorem not_isPlace {other : Place} (apart : other ≠ place) :
    ¬ isPlace place place.length other = true :=
  fun is => apart ((isPlace_length_iff place other).mp is)

theorem find?_moved (entries : List (Place × Entry)) (source target more : Place) :
    ((entries.filter fun entry => source.isPrefixOf entry.1).map fun entry =>
        (target ++ entry.1.drop source.length, entry.2)).find?
          (isPlace (target ++ more) (target ++ more).length ·.1) =
      (entries.find? (isPlace (source ++ more) (source ++ more).length ·.1)).map fun entry =>
        (target ++ more, entry.2) := by
  induction entries with
  | nil => rfl
  | cons first rest ih =>
    obtain ⟨there, thing⟩ := first
    by_cases under : source <+: there
    · obtain ⟨below, rfl⟩ := under
      rw [filter_cons_of_pos (by simp), map_cons]
      simp only [drop_left]
      by_cases same : below = more
      · subst same
        rw [find?_cons_of_pos (by exact (isPlace_length_iff _ _).mpr rfl),
          find?_cons_of_pos (by exact (isPlace_length_iff _ _).mpr rfl)]
        rfl
      · have apart : ∀ head : Place, head ++ below ≠ head ++ more := fun head is =>
          same (append_cancel_left is)
        rw [find?_cons_of_neg (by exact not_isPlace (apart target)), ih,
          find?_cons_of_neg (by exact not_isPlace (apart source))]
    · have apart : there ≠ source ++ more := by
        rintro rfl
        exact under (prefix_append source more)
      have out : source.isPrefixOf there = false :=
        Bool.eq_false_iff.mpr fun is => under ( isPrefixOf_iff_prefix.mp is)
      rw [filter_cons_of_neg (by simp [out]), ih,
        find?_cons_of_neg (by exact not_isPlace apart)]

/-- What stood below a directory stands below the place it was moved to. -/
theorem get?_moveTree_below (free : ¬ disk.IsFixed (source ++ more))
    (free' : ¬ disk.IsFixed (target ++ more)) :
    (disk.moveTree source target).get? (target ++ more) = disk.get? (source ++ more) := by
  have free'' : ¬ (disk.moveTree source target).IsFixed (target ++ more) := free'
  have stayed : ((disk.entries.filter fun entry =>
      !source.isPrefixOf entry.1 && !target.isPrefixOf entry.1).find?
        (isPlace (target ++ more) (target ++ more).length ·.1)) = none := by
    rw [find?_eq_none]
    intro entry member found
    have kept := (mem_filter.mp member).2
    rw [(isPlace_length_iff _ _).mp found] at kept
    simp [ isPrefixOf_iff_prefix.mpr (prefix_append target more)] at kept
  rw [get?_of_not_isFixed free'', get?_of_not_isFixed free]
  change ((_ ++ _ : List (Place × Entry)).find? _).map Prod.snd = _
  rw [find?_append, stayed, Option.or_none, find?_moved, Option.map_map]
  rfl

/-- Nothing is left where a tree was moved away. -/
theorem get?_moveTree_source (free : ¬ disk.IsFixed (source ++ more))
    (apart : ¬ target <+: source ++ more) :
    (disk.moveTree source target).get? (source ++ more) = none := by
  have free' : ¬ (disk.moveTree source target).IsFixed (source ++ more) := free
  rw [get?_of_not_isFixed free', Option.map_eq_none_iff, find?_eq_none]
  intro entry member found
  have here := (isPlace_length_iff _ _).mp found
  rcases mem_append.mp member with moved | stayed
  · obtain ⟨old, -, rfl⟩ := mem_map.mp moved
    exact apart (here ▸ prefix_append target _)
  · have kept := (mem_filter.mp stayed).2
    rw [here] at kept
    simp [ isPrefixOf_iff_prefix.mpr (prefix_append source more)] at kept

/-- A directory that is moved to a place in a directory outside it leaves a tree. -/
theorem IsTree.moveTree (tree : disk.IsTree) (free : ¬ disk.IsFixed source)
    (apart : ¬ source <+: target)
    (folder : disk.get? target.dropLast = some .dir)
    (into : ¬ disk.IsFixed target) : (disk.moveTree source target).IsTree := by
  intro place entry found
  by_cases new : target <+: place
  · obtain ⟨more, rfl⟩ := new
    have loose : ∀ more, ¬ disk.IsFixed (source ++ more) := fun more is =>
      free (is.of_prefix (prefix_append source more))
    have loose' : ∀ more, ¬ disk.IsFixed (target ++ more) := fun more is =>
      into (is.of_prefix (prefix_append target more))
    rw [get?_moveTree_below (loose more) (loose' more)] at found
    rcases eq_nil_or_concat more with rfl | ⟨rest, last, rfl⟩
    · rw [append_nil]
      have above : target.dropLast <+: target := dropLast_prefix target
      have short : ¬ target <+: target.dropLast := by
        intro is
        have := is.length_le
        rw [length_dropLast] at this
        have empty : target = [] := length_eq_zero_iff.mp (by omega)
        exact into (by rw [empty]; cases disk.home <;> rfl)
      rw [get?_moveTree_of_not_below (fun is => apart (is.trans above)) short, folder]
    · rw [concat_eq_append, ← append_assoc] at found ⊢
      have above := tree _ _ found
      rw [dropLast_concat] at above ⊢
      rw [get?_moveTree_below (loose rest) (loose' rest), above]
  · by_cases old : source <+: place
    · obtain ⟨more, rfl⟩ := old
      have loose : ¬ disk.IsFixed (source ++ more) := fun is =>
        free (is.of_prefix (prefix_append source more))
      rw [get?_moveTree_source loose new] at found
      cases found
    · rw [get?_moveTree_of_not_below old new] at found
      have above := tree _ _ found
      have down := dropLast_prefix place
      rw [get?_moveTree_of_not_below (fun is => old (is.trans down)) fun is => new (is.trans down),
        above]

end MoveTree

/-! ### Made directories -/

/-- The second disk has all of the first, and perhaps more directories. -/
structure Grows (before after : Disk) : Prop where
  home : after.home = before.home
  places : ∀ place, after.get? place = before.get? place ∨
    before.get? place = none ∧ after.get? place = some .dir

namespace Grows

theorem refl (disk : Disk) : Grows disk disk :=
  ⟨rfl, fun _ => .inl rfl⟩

theorem kept (grows : Grows before after) (found : before.get? place = some entry) :
    after.get? place = some entry := by
  rcases grows.places place with same | ⟨none, -⟩
  · rw [same, found]
  · rw [found] at none
    cases none

theorem trans {first second third : Disk} (one : Grows first second) (other : Grows second third) :
    Grows first third := by
  refine ⟨other.home.trans one.home, fun place => ?_⟩
  rcases one.places place with same | ⟨none, dir⟩
  · rw [← same]
    exact other.places place
  · exact .inr ⟨none, other.kept dir⟩

end Grows

theorem grows_makeDir (made : disk.makeDir path = .ok after) : Grows disk after := by
  obtain ⟨place, -, none, rfl⟩ := of_makeDir made
  refine ⟨rfl, fun other => ?_⟩
  by_cases here : other = place
  · rw [here]
    exact .inr ⟨none, get?_put_self (not_isFixed (by simp [none]))⟩
  · exact .inl (get?_put_of_ne here)

theorem grows_makeDirs (disk : Disk) (existing : Bool) (path : Path) :
    Grows disk (disk.makeDirs existing path).2 :=
  makeDirs_keeps (fun _ _ _ so made => so.trans (grows_makeDir made)) (.refl disk) existing path

end Disk
end Whittle
