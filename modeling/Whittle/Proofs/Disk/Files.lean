import Whittle.Proofs.Disk.Ways
import Whittle.Proofs.Step
import Whittle.World

/-!
Reading, writing, moving and removing files. A file operation changes what stands at one
place at most (`Disk.Puts`), and as long as only files come and go there, all ways are
kept.
-/

namespace Whittle.Disk

variable {found : Option Entry} {path target : Path} {α : Type} {value : α} {existing : Bool}
  {property : Disk → Prop} {old new : Place} {done : Unit → Disk → Prop}
  {question : Disk → Except Fault α}

/-- What stands at one place is now this, and nothing else has changed. -/
structure Puts (before : Disk) (place : Place) (found : Option Entry) (after : Disk) : Prop where
  home : after.home = before.home
  here : after.get? place = found
  elsewhere : ∀ other, other ≠ place → after.get? other = before.get? other
  links : AddsNoLinks before after

def IsFile? : Option Entry → Prop
  | none | some (.file _ _) => True
  | _ => False

variable {disk before after : Disk} {place : Place} {seat : Place} {data : Bytes}

theorem puts_put (contents : Contents) (mode : Nat) (free : disk.get? place ≠ some .dir) :
    Puts disk place (some (.file contents mode)) (disk.put place (.file contents mode)) :=
  ⟨rfl, get?_put_self (not_isFixed free), fun _ => get?_put_of_ne, addsNoLinks_put disk place⟩

theorem puts_erase (free : disk.get? place ≠ some .dir) : Puts disk place none (disk.erase place) :=
  ⟨rfl, get?_erase_self (not_isFixed free), fun _ => get?_erase_of_ne, addsNoLinks_erase disk place⟩

theorem isFile?_iff :
    IsFile? found ↔ found = none ∨ ∃ contents mode, found = some (.file contents mode) := by
  rcases found with _ | ⟨_, _⟩ | _ | _ <;> simp [IsFile?]

theorem IsFile?.ne_dir (file : IsFile? found) : found ≠ some .dir := by
  rintro rfl
  exact file

theorem IsFile?.ne_link (file : IsFile? found) (target : String) : found ≠ some (.link target) := by
  rintro rfl
  exact file

theorem Puts.again {later : Disk} {found' : Option Entry} (puts : Puts before place found after)
    (more : Puts after place found' later) : Puts before place found' later where
  home := more.home.trans puts.home
  here := more.here
  elsewhere other apart := (more.elsewhere other apart).trans (puts.elsewhere other apart)
  links := puts.links.trans more.links

theorem Puts.keepsWays (puts : Puts before place found after) (file : IsFile? (before.get? place)) :
    KeepsWays before after where
  home := puts.home
  dirs other dir := by
    by_cases same : other = place
    · exact absurd dir (same ▸ file.ne_dir)
    · rw [puts.elsewhere other same, dir]
  links other target link := by
    by_cases same : other = place
    · exact absurd link (same ▸ file.ne_link target)
    · rw [puts.elsewhere other same, link]

/-! ### Texts that can be paths -/

/-- A text without the two special characters can be a path. -/
theorem unusable?_eq_none {text : String} (unmarked : Text.mark ∉ text.toList)
    (closed : Char.ofNat 0 ∉ text.toList) : unusable? text = none := by
  have noMark : Text.hasMark text = false := by
    rw [Text.hasMark, List.any_eq_false]
    intro char member marked
    exact unmarked (of_decide_eq_true marked ▸ member)
  rw [unusable?, Text.unencodable?, noMark]
  simpa using closed

/-! ### Operations at a place that was found -/

section Located

theorem atPath_ok (usable : unusable? path.text = none) : atPath path (.ok value) = .ok value := by
  rw [atPath, usable]
  rfl

theorem atPath_eq_ok_iff {result : Except Code α} :
    atPath path result = .ok value ↔ unusable? path.text = none ∧ result = .ok value := by
  rw [atPath]
  split
  · next refused => simp [refused]
  · next usable => simp [usable]

variable (located : disk.locate path = .ok place)

include located in
theorem read_of_located : disk.read path = match disk.get? place with
    | some (.file contents mode) =>
      if mode &&& 0o400 = 0 then .error (Fault.at .permission path.text) else .ok contents.bytes
    | some .dir => .error (Fault.at .isDirectory path.text)
    | _ => .error (Fault.at .notFound path.text) := by
  rw [read, located]
  change (match disk.get? place with | some (.file contents mode) => _ | some .dir => _ | _ => _) = _
  split
  · split <;> rfl
  · rfl
  · rfl

include located in
theorem mode?_of_located : disk.mode? path = match disk.get? place with
    | some (.file _ mode) => .ok mode
    | some .dir => .ok 0o755
    | _ => .error (Fault.at .notFound path.text) := by
  rw [mode?, located]
  rfl

include located in
theorem setMode_of_located (mode : Nat) : disk.setMode path mode = match disk.get? place with
    | some (.file contents _) => .ok (disk.put place (.file contents mode))
    | some .dir => .ok disk
    | _ => .error (Fault.at .notFound path.text) := by
  rw [setMode, located]
  rfl

theorem alter_of_located (located : disk.locateFile path = .ok place) (change : Contents → Contents) :
    disk.alter path change =
      match disk.get? place with
      | some (.file contents mode) =>
        if mode &&& 0o200 = 0 then .error (Fault.at .permission path.text)
        else .ok (disk.put place (.file (change contents) mode))
      | some .dir => .error (Fault.at .isDirectory path.text)
      | _ => .ok (disk.put place (.file (change (.ofBytes [])) newMode)) := by
  rw [alter, located]
  change (match disk.get? place with | some (.file contents mode) => _ | some .dir => _ | _ => _) = _
  split
  · split <;> rfl
  · rfl
  · rfl

theorem makeDir_of_located (located : disk.locateEntry path = .ok place) : disk.makeDir path =
    match disk.get? place with
    | none => .ok (disk.put place .dir)
    | some _ => .error (Fault.at .alreadyExists path.text) := by
  rw [makeDir, located]
  rfl

theorem remove_of_located (located : disk.locateEntry path = .ok place) : disk.remove path =
    match disk.get? place with
    | none => .error (Fault.at .notFound path.text)
    | some .dir => .error (Fault.at .isDirectory path.text)
    | some _ => .ok (disk.erase place) := by
  rw [remove, located]
  rfl

end Located

variable {fault : Fault}

/-- Nothing is made at a path that cannot be used, and then no directory is missing. -/
theorem makeDir_of_unusable (refused : unusable? path.text = some fault) :
    disk.makeDir path = .error fault ∧ ∀ operands, fault ≠ .met .notFound operands := by
  constructor
  · rw [makeDir, locateEntry, atPath, refused]
    rfl
  · rintro operands rfl
    unfold unusable? at refused
    split at refused
    · cases refused
    · split at refused <;> cases refused

theorem makeDir_ne_notFound (leads : disk.lookUp .entry path = .ok place) (operands : List String) :
    disk.makeDir path ≠ .error (.met .notFound operands) := by
  rcases refused : unusable? path.text with _ | fault
  · have located : disk.locateEntry path = .ok place := by
      rw [locateEntry, leads, atPath_ok refused]
    rw [makeDir_of_located located]
    rintro same
    split at same <;> cases same
  · obtain ⟨fails, other⟩ := makeDir_of_unusable refused
    rw [fails]
    exact fun same => other operands (Except.error.inj same)

section

variable (fails : disk.makeDir path = .error fault)
  (other : ∀ operands, fault ≠ .met .notFound operands) (existing : Bool)

include fails other

/-- Nothing is made if making the last directory fails, unless one above it is missing. -/
theorem makeDirs_of_error :
    ∃ result, disk.makeDirs existing path = (result, disk) ∧
      (existing = false → result = .error fault) := by
  rw [makeDirs, fails]
  split
  · next same => cases same
  · next same =>
    cases same
    exact ⟨_, rfl, fun _ => rfl⟩
  · next same =>
    cases same
    exact ⟨_, rfl, fun _ => rfl⟩
  · next operands same =>
    cases same
    exact absurd rfl (other operands)
  · next same =>
    cases same
    exact ⟨_, rfl, fun not => by simp [not]⟩

theorem makeDirs_eq_self : (disk.makeDirs existing path).2 = disk := by
  obtain ⟨result, same, -⟩ := makeDirs_of_error fails other existing
  rw [same]

end

/-- Nothing is made at a path that cannot be used. -/
theorem makeDirs_of_unusable (refused : unusable? path.text = some fault) :
    (disk.makeDirs existing path).2 = disk := by
  obtain ⟨fails, other⟩ := makeDir_of_unusable refused
  exact makeDirs_eq_self fails other existing

theorem makeDirs_of_long (usable : unusable? path.text = none)
    (long : Text.exceeds pathLimit path.text = true) : (disk.makeDirs existing path).2 = disk := by
  have fails : disk.makeDir path = .error (Fault.at .nameTooLong path.text) := by
    rw [makeDir, locateEntry, atPath, usable, lookUp, if_pos long]
    rfl
  exact makeDirs_eq_self fails (fun _ same => by cases same) existing

/-- What making a single directory keeps is kept in making one with those above it, which are made only
where one is missing. -/
theorem makeDirs_induction {such : Path → Prop}
    (upward : ∀ path operands, disk.makeDir path = .error (.met .notFound operands) → such path →
      such path.parent)
    (makes : ∀ path before after,
      before = disk ∨ (∃ operands, disk.makeDir path = .error (.met .notFound operands)) →
      such path → property before → before.makeDir path = .ok after → property after)
    (so : property disk) (existing : Bool) (path : Path) (meets : such path) :
    property (disk.makeDirs existing path).2 := by
  fun_induction makeDirs disk existing path with
  | case1 existing path made is => exact makes path disk made (.inl rfl) meets so is
  | case2 => exact so
  | case3 => exact so
  | case4 => exact so
  | case5 existing path operands missing _ fault above fails ih =>
    have kept := ih (upward path operands missing meets)
    rw [fails] at kept
    exact kept
  | case6 existing path operands missing _ above goes made is ih =>
    have kept := ih (upward path operands missing meets)
    rw [goes] at kept
    exact makes path above made (.inr ⟨operands, missing⟩) meets kept is
  | case7 existing path operands missing _ above goes fault fails ih =>
    have kept := ih (upward path operands missing meets)
    rw [goes] at kept
    exact kept
  | case8 => exact so

theorem makeDirs_keeps
    (makes : ∀ path before after, property before → before.makeDir path = .ok after → property after)
    (so : property disk) (existing : Bool) (path : Path) : property (disk.makeDirs existing path).2 :=
  makeDirs_induction (fun _ _ _ (always : True) => always)
    (fun path before after _ _ => makes path before after) so existing path trivial

/-! ### What operations do -/

theorem of_alter {change : Contents → Contents} (altered : disk.alter path change = .ok after) :
    ∃ place contents mode, disk.locateFile path = .ok place ∧ disk.get? place ≠ some .dir ∧
      after = disk.put place (.file contents mode) := by
  obtain ⟨place, located, altered⟩ := bind_eq_ok_iff.mp altered
  split at altered
  · next found =>
    split at altered
    · cases altered
    · cases altered
      exact ⟨place, _, _, located, by simp [found], rfl⟩
  · cases altered
  · next notDir =>
    cases altered
    exact ⟨place, _, _, located, fun dir => notDir dir, rfl⟩

theorem of_makeDir (made : disk.makeDir path = .ok after) :
    ∃ place, disk.locateEntry path = .ok place ∧ disk.get? place = none ∧
      after = disk.put place .dir := by
  obtain ⟨place, located, made⟩ := bind_eq_ok_iff.mp made
  split at made
  · next none =>
    cases made
    exact ⟨place, located, none, rfl⟩
  · cases made

theorem of_removeTree (removed : disk.removeTree path = .ok after) :
    ∃ place, disk.locateEntry path = .ok place ∧ after = disk.eraseTree place := by
  obtain ⟨place, located, removed⟩ := bind_eq_ok_iff.mp removed
  obtain ⟨-, -, removed⟩ := bind_eq_ok_iff.mp removed
  split at removed
  · cases removed
  · cases removed
  · cases removed
  · cases removed
    exact ⟨place, located, rfl⟩

theorem of_move (moved : disk.move old new = .ok after) :
    after = disk ∨ after = disk.moveTree old new ∨
      ∃ entry, disk.get? old = some entry ∧ after = (disk.erase old).put new entry := by
  unfold move at moved
  split at moved
  · cases moved
  · next stands =>
    split at moved
    · cases moved
      exact .inl rfl
    · split at moved
      · cases moved
      · split at moved
        · cases moved
        · split at moved
          · cases moved
          · cases moved
          · split at moved
            · cases moved
              exact .inr (.inl rfl)
            · cases moved
          · cases moved
            exact .inr (.inl rfl)
          · cases moved
          · cases moved
            exact .inr (.inr ⟨_, stands, rfl⟩)

theorem of_rename (renamed : disk.rename path target = .ok after) :
    unusable? path.text = none ∧ ∃ old new, disk.lookUp .entry path = .ok old ∧
      disk.lookUp .entry target = .ok new ∧ disk.move old new = .ok after := by
  unfold rename at renamed
  split at renamed
  · cases renamed
  · next usable =>
    obtain ⟨old, found, moved⟩ := bind_eq_ok_iff.mp (mapError_eq_ok_iff.mp renamed)
    obtain ⟨new, found', moved⟩ := bind_eq_ok_iff.mp moved
    split at moved
    · cases moved
    · refine ⟨?_, old, new, found, found', moved⟩
      rcases first : unusable? path.text with _ | fault
      · rfl
      · rw [first] at usable
        cases usable

/-! ### Faults of the system -/

theorem isSystem_of_pathExists (failed : disk.pathExists path = .error fault) :
    fault.isSystem = true := by
  rw [pathExists, status] at failed
  split at failed
  · cases failed
  · split at failed
    · cases failed
    · split at failed <;> cases failed
      rfl

theorem isSystem_of_mode? (usable : unusable? path.text = none)
    (failed : disk.mode? path = .error fault) : fault.isSystem = true := by
  rcases looked : disk.lookUp .target path with code | place
  · have located : disk.locate path = .error (Fault.at code path.text) := by
      rw [locate, looked, atPath, usable]
      rfl
    rw [mode?, located] at failed
    cases failed
    rfl
  · rw [mode?_of_located (by rw [locate, looked, atPath_ok usable])] at failed
    split at failed <;> cases failed
    rfl

/-! ### Seats -/

/-- A path that leads to an entry of a directory that is there, whatever the entry is. -/
structure Posted (disk : Disk) (path : Path) (seat : Place) : Prop where
  usable : unusable? path.text = none
  plain : IsPlain path.name
  leads : disk.lookUp .entry path = .ok seat
  folder : disk.get? seat.dropLast = some .dir

namespace Posted

variable (posted : Posted disk path seat)

include posted

theorem arrives : ∃ left, disk.arrive linkLimit (disk.startOf path) path.parent.names =
      some (left, seat.dropLast) := by
  obtain ⟨-, -, left, folder, arrives, rfl⟩ := exists_arrive_of_lookUp posted.plain posted.leads
  exact ⟨left, by rw [List.dropLast_concat, arrives]⟩

theorem eq_concat : seat = seat.dropLast ++ [path.name] := by
  obtain ⟨-, -, left, folder, -, rfl⟩ := exists_arrive_of_lookUp posted.plain posted.leads
  rw [List.dropLast_concat]

theorem mono (keeps : KeepsWays disk after) : Posted after path seat where
  usable := posted.usable
  plain := posted.plain
  leads := lookUp_mono keeps posted.leads
  folder := keeps.dirs _ posted.folder

theorem locateEntry : disk.locateEntry path = .ok seat := by
  rw [Disk.locateEntry, posted.leads, atPath_ok posted.usable]

theorem isUnnamed : isUnnamed path = false := by
  simp [Disk.isUnnamed, posted.plain.ne_empty, posted.plain.notUp]

section

variable (usable : unusable? path.parent.text = none)
  (short : Text.exceeds pathLimit path.parent.text = false)

include usable short

/-- The directory of a seat cannot be made, since it is there. -/
theorem makeDir_parent :
    disk.makeDir path.parent = .error (Fault.at .alreadyExists path.parent.text) := by
  obtain ⟨left, arrives⟩ := posted.arrives
  obtain ⟨found, leads, which⟩ := walk_of_arrive arrives
  obtain ⟨entry, there⟩ : ∃ entry, disk.get? found = some entry := by
    rcases which with rfl | ⟨target, link⟩
    · exact ⟨_, posted.folder⟩
    · exact ⟨_, link⟩
  have leads : disk.lookUp .entry path.parent = .ok found :=
    (if_neg (by simp [short])).trans leads
  have located : disk.locateEntry path.parent = .ok found := by
    rw [Disk.locateEntry, leads, atPath_ok usable]
  rw [makeDir_of_located located, there]

theorem isDir_parent :
    disk.isDir path.parent = .ok true := by
  obtain ⟨left, arrives⟩ := posted.arrives
  have leads : disk.lookUp .target path.parent = .ok seat.dropLast :=
    (if_neg (by simp [short])).trans (walk_target_of_arrive arrives)
  rw [isDir, status, usable, leads]
  simp [posted.folder, Except.map]

/-- The directory of a seat need not be made. -/
theorem makeDirs_parent :
    disk.makeDirs true path.parent = (.ok (), disk) := by
  rw [makeDirs, posted.makeDir_parent usable short]
  simp [Fault.at, forgive, posted.isDir_parent usable short, bind, Except.bind]
  rfl

end

/-- What stands at a path is removed, or it is a directory; it may be missing. -/
theorem removeIfPresent
    (removed : disk.removeIfPresent path = .ok after) : Puts disk seat none after := by
  rw [Disk.removeIfPresent, remove_of_located posted.locateEntry] at removed
  rcases found : disk.get? seat with _ | ⟨contents, mode⟩ | _ | target <;> rw [found] at removed
  · cases removed
    exact ⟨rfl, found, fun _ _ => rfl, .refl disk⟩
  · cases removed
    exact puts_erase (by simp [found])
  · cases removed
  · cases removed
    exact puts_erase (by simp [found])

end Posted

/-- A path that leads to a file, or to where one may be made, in a directory that is there. -/
structure Seated (disk : Disk) (path : Path) (seat : Place) : Prop where
  usable : unusable? path.text = none
  plain : IsPlain path.name
  leads : disk.lookUp .entry path = .ok seat
  folder : disk.get? seat.dropLast = some .dir
  file : IsFile? (disk.get? seat)

namespace Seated

theorem of_arrive {folder : Place} {left : Nat} (usable : unusable? path.text = none)
    (short : Text.exceeds pathLimit path.text = false) (plain : IsPlain path.name)
    (fits : Text.exceeds nameLimit path.name = false)
    (arrives : disk.arrive linkLimit (disk.startOf path) path.parent.names = some (left, folder))
    (dir : disk.get? folder = some .dir) (file : IsFile? (disk.get? (folder ++ [path.name]))) :
    Seated disk path (folder ++ [path.name]) where
  usable := usable
  plain := plain
  leads := by rw [lookUp_of_arrive plain arrives, walk_entry_plain plain, short, fits]; rfl
  folder := by rw [List.dropLast_concat, dir]
  file := file

variable (seated : Seated disk path seat)

include seated

theorem posted : Posted disk path seat :=
  { seated with }

theorem lookUp (aim : Aim) : disk.lookUp aim path = .ok seat :=
  lookUp_aim seated.plain seated.leads seated.file.ne_link

theorem locate : disk.locate path = .ok seat := by
  rw [Disk.locate, seated.lookUp, atPath_ok seated.usable]

theorem mono (keeps : KeepsWays disk after)
    (file : IsFile? (after.get? seat)) : Seated after path seat where
  usable := seated.usable
  plain := seated.plain
  leads := lookUp_mono keeps seated.leads
  folder := keeps.dirs _ seated.folder
  file := file

theorem read_eq_ok_iff :
    disk.read path = .ok data ↔ ∃ contents mode, disk.get? seat = some (.file contents mode) ∧
      mode &&& 0o400 ≠ 0 ∧ contents.bytes = data := by
  rw [read_of_located seated.locate]
  rcases disk.get? seat with _ | entry
  · simp
  · cases entry with
    | file contents mode =>
      by_cases closed : mode &&& 0o400 = 0
      · simp only [closed, if_true, reduceCtorEq, false_iff]
        rintro ⟨_, _, same, opened, -⟩
        cases same
        exact opened closed
      · simp only [closed, if_false, Except.ok.injEq, Option.some.injEq, Entry.file.injEq]
        exact ⟨fun same => ⟨contents, mode, ⟨rfl, rfl⟩, closed, same⟩,
          fun ⟨_, _, ⟨this, _⟩, _, same⟩ => this ▸ same⟩
    | dir => simp
    | link target => simp

theorem removeIfPresent :
    ∃ after, disk.removeIfPresent path = .ok after ∧ Puts disk seat none after := by
  rw [Disk.removeIfPresent, remove_of_located seated.posted.locateEntry]
  rcases isFile?_iff.mp seated.file with none | ⟨contents, mode, found⟩
  · exact ⟨disk, by rw [none]; rfl, rfl, none, fun _ _ => rfl, .refl disk⟩
  · exact ⟨disk.erase seat, by rw [found], puts_erase (by simp [found])⟩

theorem locateFile : disk.locateFile path = .ok seat := by
  rw [Disk.locateFile, seated.lookUp, atPath_ok seated.usable]

theorem pathExists : disk.pathExists path = .ok (disk.get? seat).isSome := by
  rw [Disk.pathExists, status, seated.usable, seated.lookUp]
  rfl

omit seated in
/-- A file moves to another place of its directory, unless a directory stands there. -/
theorem rename_posted {source : Path} {contents : Contents} {mode : Nat}
    (from_ : Seated disk source old) (into : Posted disk target new) (apart : old ≠ new)
    (beside : old.length = new.length) (found : disk.get? old = some (.file contents mode)) :
    disk.rename source target =
      if disk.get? new = some .dir then
        .error (Fault.between .isDirectory source.text target.text)
      else .ok ((disk.erase old).put new (.file contents mode)) := by
  have move : disk.move old new =
      if disk.get? new = some .dir then .error .isDirectory
      else .ok ((disk.erase old).put new (.file contents mode)) := by
    have ahead : old.isPrefixOf new = false := Bool.eq_false_iff.mpr fun is =>
      apart ((List.isPrefixOf_iff_prefix.mp is).eq_of_length beside)
    have behind : new.isPrefixOf old = false := Bool.eq_false_iff.mpr fun is =>
      apart ((List.isPrefixOf_iff_prefix.mp is).eq_of_length beside.symm).symm
    rw [move, found]
    rcases disk.get? new with _ | ⟨_, _⟩ | _ | _ <;> simp [apart, ahead, behind]
  rw [rename, from_.usable, into.usable]
  simp only [from_.lookUp, into.leads, from_.posted.isUnnamed, into.isUnnamed]
  change (disk.move old new).mapError _ = _
  rw [move]
  split <;> rfl

end Seated

/-! ### Steps on the disk -/

variable {failed : Failure → Disk → Prop}

variable {operation : Disk → Except Fault Disk}

theorem ends_change : (change operation).Ends done failed disk ↔
      (∀ changed, operation disk = .ok changed → done () changed) ∧
        ∀ fault, operation disk = .error fault → failed (.disk fault) disk := by
  change Step.Outcome done failed (change operation disk) ↔ _
  rw [change]
  rcases operation disk with fault | changed <;> simp [Step.Outcome]

theorem ends_ask {done : α → Disk → Prop} : (ask question).Ends done failed disk ↔
      (∀ value, question disk = .ok value → done value disk) ∧
        ∀ fault, question disk = .error fault → failed (.disk fault) disk := by
  change Step.Outcome done failed ((question disk).mapError .disk, disk) ↔ _
  rcases question disk with fault | value <;> simp [Step.Outcome]

theorem ends_change_of {changed : Disk} (ok : operation disk = .ok changed)
    (holds : done () changed) : (change operation).Ends done failed disk := by
  rw [ends_change, ok]
  exact ⟨fun _ same => Except.ok.inj same ▸ holds, fun _ fails => by cases fails⟩

theorem ends_ensureDir (property : Disk → Prop) (holds : property (disk.makeDirs existing path).2) :
    (ensureDir existing path).Leaves property disk :=
  ends_const.mpr holds

end Whittle.Disk
