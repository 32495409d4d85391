import Whittle.Proofs.Disk.Files

/-!
Margins: places that are set aside, with all that lies below them. A path that leads into
the margin leads to a place in it, whatever stands there, as long as there are no links in
it (`Margin.Holds.has_of_lookUp`). So things can be made, written, moved and removed in the
margin while all other places stay as they are (`Margin.Tends`).
-/

namespace Whittle

open List

variable {top source target : Place} {entry : Entry} {first second third : Disk} {aim : Disk.Aim}

/-- Places that are set aside, and all below them. -/
structure Margin where
  has : Disk.Place → Bool
  below : ∀ place more, has place = true → has (place ++ more) = true

def Disk.without (disk : Disk) (margin : Margin) : Disk :=
  { disk with entries := disk.entries.filter fun entry => !margin.has entry.1 }

def Path.down (path : Path) (names : List String) : Path :=
  { path with names := path.names ++ names }

@[simp] theorem Path.down_names (path : Path) (names : List String) :
    (path.down names).names = path.names ++ names :=
  rfl

theorem Path.down_down (path : Path) (names more : List String) :
    (path.down names).down more = path.down (names ++ more) := by
  simp [Path.down]

@[simp] theorem Path.name_down (path : Path) (name : String) : (path.down [name]).name = name := by
  simp [Path.name, Path.down]

@[simp] theorem Path.parent_down (path : Path) (name : String) : (path.down [name]).parent = path := by
  simp [Path.parent, Path.down]

namespace Margin

open Disk (Place IsPlain KeepsWays)

variable {margin : Margin} {disk before after : Disk} {place : Place} {path : Path}

theorem has_of_under (inside : margin.has top = true) (under : top <+: place) :
    margin.has place = true := by
  obtain ⟨more, rfl⟩ := under
  exact margin.below top more inside

theorem get?_without (out : margin.has place = false) :
    (disk.without margin).get? place = disk.get? place := by
  refine Disk.get?_congr (Disk.find?_filter_of_imp fun item found => ?_)
  rw [(Disk.isPlace_length_iff _ _).mp found, out]
  rfl

theorem get?_without_of_has (inside : margin.has place = true) (free : ¬ disk.IsFixed place) :
    (disk.without margin).get? place = none := by
  have free : ¬ (disk.without margin).IsFixed place := free
  rw [Disk.get?_of_not_isFixed free, Option.map_eq_none_iff, find?_eq_none]
  intro item member found
  have kept := (mem_filter.mp member).2
  rw [(Disk.isPlace_length_iff _ _).mp found, inside] at kept
  cases kept

theorem get?_of_get?_without
    (found : (disk.without margin).get? place = some entry) : disk.get? place = some entry := by
  by_cases fixed : disk.IsFixed place
  · have fixed' : (disk.without margin).IsFixed place := fixed
    rw [Disk.get?_of_isFixed fixed, ← Disk.get?_of_isFixed fixed', found]
  · cases inside : margin.has place with
    | true =>
      rw [get?_without_of_has inside fixed] at found
      cases found
    | false => rwa [get?_without inside] at found

theorem get?_without_mono {part : Margin} (home : after.home = before.home)
    (within : ∀ place, part.has place = true → margin.has place = true)
    (keeps : before.get? place = some entry → after.get? place = some entry)
    (found : (before.without margin).get? place = some entry) :
    (after.without part).get? place = some entry := by
  by_cases fixed : before.IsFixed place
  · have dir : (before.without margin).get? place = some .dir := Disk.get?_of_isFixed fixed
    have fixed' : (after.without part).IsFixed place := by
      change place.isPrefixOf after.home = true
      rw [home]
      exact fixed
    rw [Disk.get?_of_isFixed fixed', ← dir, found]
  · cases is : part.has place with
    | true =>
      rw [get?_without_of_has (within place is) fixed] at found
      cases found
    | false =>
      rw [get?_without is]
      exact keeps (get?_of_get?_without found)

theorem keepsWays_without (margin : Margin) (disk : Disk) : KeepsWays (disk.without margin) disk :=
  ⟨rfl, fun _ => get?_of_get?_without, fun _ _ => get?_of_get?_without⟩

/-! ### Changes in the margin -/

/-- Only places in the margin have changed. -/
structure Alters (margin : Margin) (before after : Disk) : Prop where
  home : after.home = before.home
  elsewhere : ∀ place, margin.has place = false → after.get? place = before.get? place

def Linkless (margin : Margin) (disk : Disk) : Prop :=
  ∀ place target, (place, Entry.link target) ∈ disk.entries → margin.has place = false

/-- Only places in the margin have changed, and there are no links in it. -/
structure Tends (margin : Margin) (before after : Disk) : Prop where
  alters : margin.Alters before after
  linkless : margin.Linkless after

theorem Alters.refl (margin : Margin) (disk : Disk) : margin.Alters disk disk :=
  ⟨rfl, fun _ _ => rfl⟩

theorem Alters.trans (one : margin.Alters first second)
    (other : margin.Alters second third) : margin.Alters first third :=
  ⟨other.home.trans one.home, fun place out =>
    (other.elsewhere place out).trans (one.elsewhere place out)⟩

/-- Outside the margin a place is seen to have changed only if it has. -/
theorem get?_without_congr (home : after.home = before.home)
    (same : margin.has place = false → after.get? place = before.get? place) :
    (after.without margin).get? place = (before.without margin).get? place := by
  cases inside : margin.has place with
  | false => rw [get?_without inside, get?_without inside, same inside]
  | true =>
    by_cases fixed : before.IsFixed place
    · have fixed' : (before.without margin).IsFixed place := fixed
      have fixed'' : (after.without margin).IsFixed place := by
        change place.isPrefixOf after.home = true
        rw [home]
        exact fixed
      rw [Disk.get?_of_isFixed fixed', Disk.get?_of_isFixed fixed'']
    · have fixed' : ¬ after.IsFixed place := by
        change ¬ place.isPrefixOf after.home = true
        rw [home]
        exact fixed
      rw [get?_without_of_has inside fixed, get?_without_of_has inside fixed']

theorem Alters.keepsWays (alters : margin.Alters before after) :
    KeepsWays (before.without margin) (after.without margin) := by
  have same := fun place => get?_without_congr alters.home (alters.elsewhere place)
  exact ⟨alters.home, fun place dir => (same place).trans dir, fun place _ link => (same place).trans link⟩

theorem Linkless.get?_ne (linkless : margin.Linkless disk) (inside : margin.has place = true)
    (target : String) : disk.get? place ≠ some (.link target) :=
  fun found => Bool.noConfusion
    (inside.symm.trans (linkless place target (Disk.mem_of_get? found (by simp))))

/-! ### Paths into the margin -/

/-- A path leads into the margin: the beginning of it does so past nothing in the margin, and only
plain names follow. -/
def Holds (margin : Margin) (disk : Disk) (path : Path) : Prop :=
  ∃ base top names, IsPlain base.name ∧ (disk.without margin).lookUp .entry base = .ok top ∧
    margin.has top = true ∧ path = { base with names := base.names ++ names } ∧
    ∀ name ∈ names, IsPlain name

def Reaches (margin : Margin) (disk : Disk) (path : Path) (place : Place) : Prop :=
  ∃ base top names, IsPlain base.name ∧ (disk.without margin).lookUp .entry base = .ok top ∧
    margin.has top = true ∧ path = base.down names ∧ place = top ++ names ∧
    ∀ name ∈ names, IsPlain name

namespace Reaches

theorem holds (reaches : margin.Reaches disk path place) : margin.Holds disk path := by
  obtain ⟨base, top, names, plain, entered, inside, rfl, -, plains⟩ := reaches
  exact ⟨base, top, names, plain, entered, inside, rfl, plains⟩

theorem has (reaches : margin.Reaches disk path place) : margin.has place = true := by
  obtain ⟨base, top, names, -, -, inside, -, rfl, -⟩ := reaches
  exact margin.below top names inside

theorem mono (reaches : margin.Reaches before path place)
    (keeps : KeepsWays (before.without margin) (after.without margin)) :
    margin.Reaches after path place := by
  obtain ⟨base, top, names, plain, entered, rest⟩ := reaches
  exact ⟨base, top, names, plain, Disk.lookUp_mono keeps entered, rest⟩

section

variable (reaches : margin.Reaches disk path place)

include reaches

/-- The last names of the path lead straight down to the place, from a directory that is found past
nothing in the margin. -/
theorem exists_way : ∃ way names left above,
      (disk.without margin).arrive Disk.linkLimit (disk.startOf path) way = some (left, above) ∧
      path.names = way ++ names ∧ place = above ++ names ∧ names ≠ [] ∧
      (∀ name ∈ names, IsPlain name) ∧
      ∀ shorter, shorter ≠ [] → shorter <+: names → margin.has (above ++ shorter) = true := by
  obtain ⟨base, top, names, plain, entered, inside, rfl, rfl, plains⟩ := reaches
  obtain ⟨-, -, left, above, arrives, rfl⟩ := Disk.exists_arrive_of_lookUp plain entered
  refine ⟨base.parent.names, base.name :: names, left, above, arrives, ?_, by simp, by simp, ?_, ?_⟩
  · rw [Path.down_names, Disk.names_eq_parent_append plain, append_assoc, singleton_append]
  · intro name member
    rcases mem_cons.mp member with rfl | later
    · exact plain
    · exact plains name later
  · rintro shorter deeper ⟨more, whole⟩
    cases shorter with
    | nil => exact absurd rfl deeper
    | cons first rest =>
      obtain ⟨rfl, -⟩ := cons.inj whole
      rw [append_cons]
      exact margin.below _ rest inside

theorem eq_of_lookUp {found : Place}
    (linkless : margin.Linkless disk) (leads : disk.lookUp aim path = .ok found) : found = place := by
  obtain ⟨way, names, left, above, arrives, whole, rfl, named, plain, inside⟩ := reaches.exists_way
  have arrives := Disk.arrive_mono (keepsWays_without margin disk) arrives
  obtain ⟨-, leads⟩ := Disk.lookUp_eq_ok_iff.mp leads
  rw [whole, Disk.walk_append_of_arrive named (Disk.ne_asks plain) arrives] at leads
  refine (Disk.walk_down plain (fun shorter deeper below target => ?_) leads).1
  exact linkless.get?_ne (inside shorter deeper below) target

/-- The path above one whose last directory is missing reaches the place above. -/
theorem parent (missing : ∃ operands, disk.makeDir path = .error (.met .notFound operands)) :
    margin.Reaches disk path.parent place.dropLast := by
  obtain ⟨base, top, names, plain, entered, inside, rfl, rfl, plains⟩ := reaches
  rcases eq_nil_or_concat names with rfl | ⟨names, last, rfl⟩
  · exfalso
    obtain ⟨operands, missing⟩ := missing
    have leads := Disk.lookUp_mono (keepsWays_without margin disk) entered
    rw [Path.down, append_nil] at missing
    exact Disk.makeDir_ne_notFound leads operands missing
  · rw [concat_eq_append] at plains ⊢
    refine ⟨base, top, names, plain, entered, inside, ?_, ?_, fun name member =>
      plains name (mem_append_left _ member)⟩
    · rw [← Path.down_down, Path.parent_down]
    · rw [← append_assoc, dropLast_concat]

end

end Reaches

theorem holds_iff : margin.Holds disk path ↔ ∃ place, margin.Reaches disk path place := by
  constructor
  · rintro ⟨base, top, names, plain, entered, inside, whole, plains⟩
    exact ⟨_, base, top, names, plain, entered, inside, whole, rfl, plains⟩
  · exact fun ⟨_, reaches⟩ => reaches.holds

theorem Holds.has_of_lookUp (holds : margin.Holds disk path)
    (linkless : margin.Linkless disk) (leads : disk.lookUp aim path = .ok place) :
    margin.has place = true := by
  obtain ⟨_, reaches⟩ := holds_iff.mp holds
  rw [reaches.eq_of_lookUp linkless leads]
  exact reaches.has

theorem Holds.mono (holds : margin.Holds before path)
    (keeps : KeepsWays (before.without margin) (after.without margin)) : margin.Holds after path := by
  obtain ⟨_, reaches⟩ := holds_iff.mp holds
  exact (reaches.mono keeps).holds

theorem Holds.parent (holds : margin.Holds disk path)
    (missing : ∃ operands, disk.makeDir path = .error (.met .notFound operands)) :
    margin.Holds disk path.parent := by
  obtain ⟨_, reaches⟩ := holds_iff.mp holds
  exact (reaches.parent missing).holds

/-! ### Operations in the margin -/

theorem Tends.trans (one : margin.Tends first second)
    (other : margin.Tends second third) : margin.Tends first third :=
  ⟨one.alters.trans other.alters, other.linkless⟩

section

variable (linkless : margin.Linkless disk) (inside : margin.has place = true)

include linkless inside

theorem tends_put
    (noLink : ∀ target, entry ≠ .link target) : margin.Tends disk (disk.put place entry) := by
  refine ⟨⟨rfl, fun other out => Disk.get?_put_of_ne fun same => ?_⟩, fun other target member => ?_⟩
  · rw [same, inside] at out
    cases out
  · rcases mem_cons.mp member with same | kept
    · cases same
      exact absurd rfl (noLink target)
    · exact linkless other target (mem_filter.mp kept).1

theorem tends_erase :
    margin.Tends disk (disk.erase place) := by
  refine ⟨⟨rfl, fun other out => Disk.get?_erase_of_ne fun same => ?_⟩, fun other target member =>
    linkless other target (mem_filter.mp member).1⟩
  rw [same, inside] at out
  cases out

end

theorem not_under (inside : margin.has top = true) (out : margin.has place = false) :
    ¬ top <+: place := by
  intro under
  rw [has_of_under inside under] at out
  cases out

section

variable (linkless : margin.Linkless disk)

include linkless

theorem tends_eraseTree (inside : margin.has place = true) :
    margin.Tends disk (disk.eraseTree place) :=
  ⟨⟨rfl, fun _ out => Disk.get?_eraseTree_of_not_below (not_under inside out)⟩,
    fun other target member => linkless other target (mem_filter.mp member).1⟩

theorem tends_moveTree (old : margin.has source = true) (new : margin.has target = true) :
    margin.Tends disk (disk.moveTree source target) := by
  refine ⟨⟨rfl, fun place out =>
    Disk.get?_moveTree_of_not_below (not_under old out) (not_under new out)⟩,
    fun other link member => ?_⟩
  rcases mem_append.mp member with moved | stayed
  · obtain ⟨⟨place, _⟩, came, same⟩ := mem_map.mp moved
    obtain ⟨there, under⟩ := mem_filter.mp came
    cases same
    have inside := has_of_under old ( isPrefixOf_iff_prefix.mp under)
    exact Bool.noConfusion (inside.symm.trans (linkless place link there))
  · exact linkless other link (mem_filter.mp stayed).1

theorem Tends.refl : margin.Tends disk disk :=
  ⟨.refl margin disk, linkless⟩

theorem tends_move (old : margin.has source = true) (new : margin.has target = true)
    (moved : disk.move source target = .ok after) : margin.Tends disk after := by
  rcases Disk.of_move moved with rfl | rfl | ⟨entry, stands, rfl⟩
  · exact .refl linkless
  · exact tends_moveTree linkless old new
  · have erased := tends_erase linkless old
    refine erased.trans (tends_put erased.linkless new ?_)
    rintro link rfl
    exact linkless.get?_ne old link stands

end

def Leads (margin : Margin) (disk : Disk) (path : Path) : Prop :=
  ∀ aim place, disk.lookUp aim path = .ok place → margin.has place = true

theorem Holds.leads (holds : margin.Holds disk path) (linkless : margin.Linkless disk) :
    margin.Leads disk path :=
  fun _ _ => holds.has_of_lookUp linkless

section Operations

variable (leads : margin.Leads disk path)

include leads

theorem has_of_atPath
    (located : Disk.atPath path (disk.lookUp aim path) = .ok place) : margin.has place = true :=
  leads aim place (Disk.atPath_eq_ok_iff.mp located).2

variable (linkless : margin.Linkless disk)

include linkless

theorem tends_alter {change : Contents → Contents} (altered : disk.alter path change = .ok after) :
    margin.Tends disk after := by
  obtain ⟨place, contents, mode, located, -, rfl⟩ := Disk.of_alter altered
  exact tends_put linkless (has_of_atPath leads located) (by simp)

theorem tends_removeTree (removed : disk.removeTree path = .ok after) : margin.Tends disk after := by
  obtain ⟨place, located, rfl⟩ := Disk.of_removeTree removed
  exact tends_eraseTree linkless (has_of_atPath leads located)

theorem tends_rename {target : Path} (leads' : margin.Leads disk target)
    (renamed : disk.rename path target = .ok after) : margin.Tends disk after := by
  obtain ⟨-, old, new, found, found', moved⟩ := Disk.of_rename renamed
  exact tends_move linkless (leads _ _ found) (leads' _ _ found') moved

theorem tends_makeDir (made : disk.makeDir path = .ok after) : margin.Tends disk after := by
  obtain ⟨place, located, -, rfl⟩ := Disk.of_makeDir made
  exact tends_put linkless (has_of_atPath leads located) (by simp)

end Operations

theorem tends_makeDirs (holds : margin.Holds disk path) (linkless : margin.Linkless disk)
    (existing : Bool) : margin.Tends disk (disk.makeDirs existing path).2 := by
  refine Disk.makeDirs_induction (fun _ operands missing holds => holds.parent ⟨operands, missing⟩) ?_
    (.refl linkless) existing path holds
  intro path before after _ holds so made
  have leads := (holds.mono so.alters.keepsWays).leads so.linkless
  exact so.trans (tends_makeDir leads so.linkless made)

end Margin
end Whittle
