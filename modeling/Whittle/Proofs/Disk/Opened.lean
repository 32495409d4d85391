import Whittle.Proofs.Disk.Trees

/-!
Opened directories. A path opens a directory if it leads there, and not through what is in it
(`Disk.Opens`). It does so for as long as only what is in the directory changes, and plain names
after the path lead straight down from there, so that files and directories can be made, written
and read in places that are known beforehand.
-/

namespace Whittle

open List

variable {disk after : Disk} {place folder : Place} {names : List String} {aim : Aim} {left : Nat}
  {name : String} {part : Margin}

namespace Disk

variable {more : List String} {links : Nat}

/-! ### Ways down -/

/-- Plain names that are not too long arrive at a directory below. -/
theorem IsTree.arrive_down (tree : disk.IsTree) (plain : ∀ name ∈ names, IsPlain name)
    (fits : ∀ name ∈ names, Text.exceeds nameLimit name = false)
    (dir : disk.get? (place ++ names) = some .dir) :
    disk.arrive links place names = some (links, place ++ names) := by
  induction names generalizing place with
  | nil => rw [arrive, append_nil]
  | cons name rest ih =>
    rw [append_cons] at dir ⊢
    have first : disk.get? (place ++ [name]) = some .dir := by
      cases rest with
      | nil => simpa using dir
      | cons next rest => exact tree.dir_above dir (by simp)
    rw [arrive_cons_dir (plain name mem_cons_self) (fits name mem_cons_self) first]
    exact ih (forall_mem_cons.mp plain).2
      (forall_mem_cons.mp fits).2 dir

end Disk

/-! ### Places in a directory -/

namespace Margin

open Disk (Place)

variable {margin : Margin} {before : Disk} {top : Place}

def inside (folder : Place) : Margin where
  has place := folder.isPrefixOf place && decide (folder.length < place.length)
  below place more in_ := by
    rw [Bool.and_eq_true, isPrefixOf_iff_prefix, decide_eq_true_eq] at in_ ⊢
    exact ⟨in_.1.trans (prefix_append place more), by simp; omega⟩

def under (top : Place) : Margin where
  has place := top.isPrefixOf place
  below place more in_ := by
    rw [ isPrefixOf_iff_prefix] at in_ ⊢
    exact in_.trans (prefix_append place more)

@[simp] theorem inside_iff : (inside folder).has place = true ↔
    ∃ more, more ≠ [] ∧ place = folder ++ more := by
  change (folder.isPrefixOf place && decide (folder.length < place.length)) = true ↔ _
  rw [Bool.and_eq_true, isPrefixOf_iff_prefix, decide_eq_true_eq]
  constructor
  · rintro ⟨⟨more, rfl⟩, deeper⟩
    refine ⟨more, ?_, rfl⟩
    rintro rfl
    simp at deeper
  · rintro ⟨more, deeper, rfl⟩
    refine ⟨prefix_append folder more, ?_⟩
    have := length_pos_iff.mpr deeper
    simp
    omega

@[simp] theorem under_iff : (under top).has place = true ↔ top <+: place :=
  isPrefixOf_iff_prefix

theorem inside_of_inside (is : (inside (folder ++ names)).has place = true) :
    (inside folder).has place = true := by
  obtain ⟨more, deeper, rfl⟩ := inside_iff.mp is
  exact inside_iff.mpr ⟨names ++ more, by simp [deeper], by rw [append_assoc]⟩

theorem inside_of_under (is : (under (folder ++ [name])).has place = true) :
    (inside folder).has place = true := by
  obtain ⟨more, rfl⟩ := under_iff.mp is
  exact inside_iff.mpr ⟨name :: more, by simp, by simp⟩

theorem under_of_inside (is : (inside (folder ++ names)).has place = true) :
    (under folder).has place = true := by
  obtain ⟨more, deeper, rfl⟩ := inside_iff.mp is
  exact under_iff.mpr ⟨names ++ more, by rw [append_assoc]⟩

theorem alters_eraseTree (disk : Disk) (top : Place) : (under top).Alters disk (disk.eraseTree top) := by
  refine ⟨rfl, fun place out => Disk.get?_eraseTree_of_not_below fun is => ?_⟩
  exact Bool.eq_false_iff.mp out (under_iff.mpr is)

section

variable (within : ∀ place, part.has place = true → margin.has place = true)

include within

theorem Linkless.mono (linkless : margin.Linkless disk) : part.Linkless disk :=
  fun place target member => Bool.eq_false_iff.mpr fun is =>
    Bool.false_ne_true ((linkless place target member).symm.trans (within place is))

theorem Alters.mono (alters : part.Alters before after) : margin.Alters before after :=
  ⟨alters.home, fun place out => alters.elsewhere place
    (Bool.eq_false_iff.mpr fun is => Bool.false_ne_true (out.symm.trans (within place is)))⟩

theorem keepsWays_without_mono (disk : Disk) :
    Disk.KeepsWays (disk.without margin) (disk.without part) :=
  ⟨rfl, fun _ => get?_without_mono rfl within id, fun _ _ => get?_without_mono rfl within id⟩

end

end Margin

theorem Disk.IsTree.without (tree : disk.IsTree) (margin : Margin) :
    (disk.without margin).IsTree := by
  intro place entry found
  have above := tree place entry (Margin.get?_of_get?_without found)
  by_cases fixed : disk.IsFixed place.dropLast
  · have fixed : (disk.without margin).IsFixed place.dropLast := fixed
    exact Disk.get?_of_isFixed fixed
  · rw [Margin.get?_without, above]
    refine Bool.eq_false_iff.mpr fun is => ?_
    have free : ¬ disk.IsFixed place := fun all =>
      fixed (all.of_prefix ( dropLast_prefix place))
    rw [Margin.get?_without_of_has (Margin.has_of_under is ( dropLast_prefix place)) free] at found
    cases found

/-! ### Opened directories -/

/-- A path with some names after it can be looked up, if only the ways are there. -/
structure Path.Passable (path : Path) (names : List String) : Prop where
  usable : Disk.unusable? (path.down names).text = none
  short : Text.exceeds Disk.pathLimit (path.down names).text = false
  fits : ∀ name ∈ names, Text.exceeds Disk.nameLimit name = false

namespace Disk

variable {path : Path}

/-- A path opens a directory: it leads there, but not through what is in it, and the directory that
relative paths start from is not in it. -/
structure Opens (disk : Disk) (path : Path) (folder : Place) : Prop where
  arrives : ∃ left, (disk.without (.inside folder)).arrive linkLimit (disk.startOf path) path.names =
    some (left, folder)
  outside : ∀ more, more ≠ [] → ¬ disk.IsFixed (folder ++ more)

@[simp] theorem startOf_down : disk.startOf (path.down names) = disk.startOf path :=
  rfl

namespace Opens

section

variable (opens : disk.Opens path folder)

include opens

/-- A directory stays open while the ways to it are kept. -/
theorem mono (keeps : KeepsWays (disk.without (.inside folder)) (after.without (.inside folder))) :
    after.Opens path folder := by
  obtain ⟨left, arrives⟩ := opens.arrives
  have home : after.home = disk.home := keeps.home
  constructor
  · have starts : after.startOf path = disk.startOf path := by rw [startOf, startOf, home]
    exact ⟨left, starts ▸ arrive_mono keeps arrives⟩
  · intro more deeper fixed
    refine opens.outside more deeper ?_
    rw [IsFixed, ← home]
    exact fixed

/-- A directory stays open while only what is in it changes. -/
theorem alters (alters : (Margin.inside folder).Alters disk after) : after.Opens path folder :=
  opens.mono alters.keepsWays

theorem arrive :
    ∃ left, disk.arrive linkLimit (disk.startOf path) path.names = some (left, folder) := by
  obtain ⟨left, arrives⟩ := opens.arrives
  exact ⟨left, arrive_mono (Margin.keepsWays_without _ disk) arrives⟩

theorem dir (tree : disk.IsTree) : disk.get? folder = some .dir := by
  obtain ⟨left, arrives⟩ := opens.arrive
  exact tree.dir_of_arrive get?_startOf arrives

theorem exists_lookUp :
    ∃ left, ∀ names aim, names ≠ [] → names ≠ [""] → disk.lookUp aim (path.down names) =
      if Text.exceeds pathLimit (path.down names).text then .error .nameTooLong
      else disk.walk aim left folder names := by
  obtain ⟨left, arrives⟩ := opens.arrive
  refine ⟨left, fun names aim named asks => ?_⟩
  rw [lookUp]
  congr 1
  exact walk_append_of_arrive named asks arrives

theorem lookUp_entry (plain : IsPlain name)
    (leads : disk.lookUp .entry (path.down [name]) = .ok place) :
    place = folder ++ [name] ∧ Text.exceeds pathLimit (path.down [name]).text = false ∧
      Text.exceeds nameLimit name = false := by
  obtain ⟨left, looked⟩ := opens.exists_lookUp
  rw [looked [name] _ (by simp) (by simp [plain.ne_empty]), walk_entry_plain plain] at leads
  split at leads
  · cases leads
  · next short =>
    split at leads
    · cases leads
    · next fits =>
      cases leads
      exact ⟨rfl, Bool.eq_false_iff.mpr short, Bool.eq_false_iff.mpr fits⟩

theorem down (tree : disk.IsTree) (plain : ∀ name ∈ names, IsPlain name)
    (fits : ∀ name ∈ names, Text.exceeds nameLimit name = false)
    (dir : disk.get? (folder ++ names) = some .dir) :
    disk.Opens (path.down names) (folder ++ names) := by
  obtain ⟨left, arrives⟩ := opens.arrives
  constructor
  · refine ⟨left, ?_⟩
    have dir' : (disk.without (.inside (folder ++ names))).get? (folder ++ names) = some .dir := by
      rw [Margin.get?_without (Bool.eq_false_iff.mpr (by simp)), dir]
    rw [Path.down_names, startOf_down,
      arrive_append (Margin.keepsWays_without_mono (fun _ => Margin.inside_of_inside) disk) arrives]
    exact (tree.without (.inside (folder ++ names))).arrive_down plain fits dir'
  · intro more deeper fixed
    rw [append_assoc] at fixed
    exact opens.outside (names ++ more) (by simp [deeper]) fixed

theorem seated (dir : disk.get? folder = some .dir)
    (plain : IsPlain name) (usable : unusable? (path.down [name]).text = none)
    (short : Text.exceeds pathLimit (path.down [name]).text = false)
    (fits : Text.exceeds nameLimit name = false) (file : IsFile? (disk.get? (folder ++ [name]))) :
    Seated disk (path.down [name]) (folder ++ [name]) := by
  obtain ⟨left, arrives⟩ := opens.arrive
  have seated : Seated disk (path.down [name]) (folder ++ [(path.down [name]).name]) :=
    .of_arrive usable short (by simpa using plain) (by simpa using fits) (by simpa using arrives) dir
      (by simpa using file)
  simpa using seated

end

/-! ### Operations in an opened directory -/

section Clear

variable (opens : disk.Opens path folder) (clear : disk.Clear folder names)
  (plain : ∀ name ∈ names, IsPlain name)

include opens clear plain

/-- Without links, plain names lead straight down. -/
theorem lookUp_down (named : names ≠ []) (leads : disk.lookUp aim (path.down names) = .ok place) :
    place = folder ++ names ∧ Text.exceeds pathLimit (path.down names).text = false ∧
      ∀ name ∈ names, Text.exceeds nameLimit name = false := by
  obtain ⟨left, looked⟩ := opens.exists_lookUp
  rw [looked names aim named (ne_asks plain)] at leads
  split at leads
  · cases leads
  · next short =>
    have down := walk_down plain clear leads
    exact ⟨down.1, Bool.eq_false_iff.mpr short, down.2⟩

theorem passable_of_atPath (named : names ≠ [])
    (located : atPath (path.down names) (disk.lookUp aim (path.down names)) = .ok place) :
    place = folder ++ names ∧ path.Passable names := by
  obtain ⟨usable, leads⟩ := atPath_eq_ok_iff.mp located
  have down := opens.lookUp_down clear plain named leads
  exact ⟨down.1, usable, down.2.1, down.2.2⟩

theorem write_new {data : Bytes} (named : names ≠ [])
    (new : ∀ contents mode, disk.get? (folder ++ names) ≠ some (.file contents mode))
    (wrote : disk.write (path.down names) data = .ok after) :
    after = disk.put (folder ++ names) (.file (.ofBytes data) newMode) ∧
      disk.get? (folder ++ names) ≠ some .dir ∧ path.Passable names := by
  obtain ⟨place, located, wrote⟩ := bind_eq_ok_iff.mp wrote
  obtain ⟨rfl, passable⟩ := opens.passable_of_atPath clear plain named located
  split at wrote
  · next found => exact absurd found (new _ _)
  · cases wrote
  · next notDir =>
    cases wrote
    exact ⟨rfl, fun dir => notDir dir, passable⟩

end Clear

end Opens

/-- A directory is not made where the lookup fails, nor is one said to be missing unless it was
looked for in vain. -/
theorem makeDir_of_lookUp_error {code : Code} (leads : disk.lookUp .entry path = .error code)
    (other : code ≠ .notFound) :
    ∃ fault, disk.makeDir path = .error fault ∧ ∀ operands, fault ≠ .met .notFound operands := by
  rcases usable : unusable? path.text with _ | fault
  · refine ⟨Fault.at code path.text, ?_, ?_⟩
    · rw [makeDir, locateEntry, atPath, usable, leads]
      rfl
    · intro operands same
      cases same
      exact other rfl
  · exact ⟨fault, makeDir_of_unusable usable⟩

/-- A directory to which names lead cannot be made, and none is missing on the way to it. -/
theorem makeDir_of_arrive
    (arrives : disk.arrive linkLimit (disk.startOf path) path.names = some (left, folder))
    (dir : disk.get? folder = some .dir) :
    ∃ fault, disk.makeDir path = .error fault ∧ ∀ operands, fault ≠ .met .notFound operands := by
  obtain ⟨found, leads, which⟩ := walk_of_arrive arrives
  obtain ⟨entry, there⟩ : ∃ entry, disk.get? found = some entry := by
    rcases which with rfl | ⟨target, link⟩
    · exact ⟨_, dir⟩
    · exact ⟨_, link⟩
  by_cases long : Text.exceeds pathLimit path.text = true
  · exact makeDir_of_lookUp_error (if_pos long) (by decide)
  · rcases usable : unusable? path.text with _ | fault
    · have located : disk.locateEntry path = .ok found := by
        rw [locateEntry, lookUp, if_neg long, leads, atPath_ok usable]
      refine ⟨Fault.at .alreadyExists path.text, ?_, fun _ same => by cases same⟩
      rw [makeDir_of_located located, there]
    · exact ⟨fault, makeDir_of_unusable usable⟩

namespace Opens

/-- An opened directory cannot be made, and none is missing on the way to it. -/
theorem makeDir_fails (opens : disk.Opens path folder) (tree : disk.IsTree) :
    ∃ fault, disk.makeDir path = .error fault ∧ ∀ operands, fault ≠ .met .notFound operands := by
  obtain ⟨left, arrives⟩ := opens.arrive
  exact makeDir_of_arrive arrives (opens.dir tree)

end Opens

namespace Opens

section

variable (opens : disk.Opens path folder)

include opens

theorem locateEntry_eq (plain : IsPlain name)
    (located : disk.locateEntry (path.down [name]) = .ok place) : place = folder ++ [name] :=
  (opens.lookUp_entry plain (atPath_eq_ok_iff.mp located).2).1

/-- What is removed from an opened directory was a directory in it, and goes with all below it. -/
theorem removeTree_eq (plain : IsPlain name)
    (removed : disk.removeTree (path.down [name]) = .ok after) :
    after = disk.eraseTree (folder ++ [name]) := by
  obtain ⟨place, located, rfl⟩ := of_removeTree removed
  rw [opens.locateEntry_eq plain located]

theorem rename_dir {old new : String} (plain : IsPlain old)
    (plain' : IsPlain new) (apart : old ≠ new) (dir : disk.get? (folder ++ [old]) = some .dir)
    (renamed : disk.rename (path.down [old]) (path.down [new]) = .ok after) :
    after = disk.moveTree (folder ++ [old]) (folder ++ [new]) := by
  obtain ⟨-, source, target, found, found', moved⟩ := of_rename renamed
  obtain ⟨rfl, -⟩ := opens.lookUp_entry plain found
  obtain ⟨rfl, -⟩ := opens.lookUp_entry plain' found'
  have beside : ∀ first second : String, first ≠ second →
      ¬ (folder ++ [first]).isPrefixOf (folder ++ [second]) = true := by
    intro first second differ is
    have same := ( isPrefixOf_iff_prefix.mp is).eq_of_length (by simp)
    exact differ (by simpa using same)
  rw [move, dir] at moved
  dsimp only at moved
  rw [if_neg (by simpa using apart), if_neg (beside old new apart),
    if_neg (beside new old apart.symm)] at moved
  rcases stands : disk.get? (folder ++ [new]) with _ | ⟨contents, mode⟩ | _ | target
  · rw [stands] at moved
    cases moved
    rfl
  · rw [stands] at moved
    cases moved
  · rw [stands] at moved
    dsimp only at moved
    split at moved <;> cases moved
    rfl
  · rw [stands] at moved
    cases moved

theorem read_down {contents : Contents} {mode : Nat}
    (tree : disk.IsTree) (plain : ∀ name ∈ names, IsPlain name) (named : names ≠ [])
    (passable : path.Passable names)
    (found : disk.get? (folder ++ names) = some (.file contents mode)) (readable : mode &&& 0o400 ≠ 0) :
    disk.read (path.down names) = .ok contents.bytes := by
  rcases eq_nil_or_concat names with rfl | ⟨init, last, rfl⟩
  · exact absurd rfl named
  · rw [concat_eq_append] at *
    rw [← append_assoc] at found
    have dir : disk.get? (folder ++ init) = some .dir := by
      simpa using tree _ _ found
    have opens' := opens.down tree (fun name member => plain name (mem_append_left _ member))
      (fun name member => passable.fits name (mem_append_left _ member)) dir
    rw [← Path.down_down]
    have seated := opens'.seated dir (plain last (by simp))
      (by rw [Path.down_down]; exact passable.usable) (by rw [Path.down_down]; exact passable.short)
      (passable.fits last (by simp)) (by rw [found]; trivial)
    exact seated.read_eq_ok_iff.mpr ⟨contents, mode, found, readable, rfl⟩

end

end Opens
end Disk
end Whittle
