import Whittle.Proofs.Disk.Reached

/-!
Directories that are there or are yet to be made. A path approaches a directory if it opens it, or if
it reaches a place where nothing stands so far (`Disk.Approaches`). To make the directory changes
nothing that is in it, and the path then opens it, or still approaches it if that has failed. What is
taken away from a disk bars no path: of whatever could be asked about, it can be asked whether it is
still there (`Disk.Shrinks`).
-/

namespace Whittle

open List
namespace Disk

variable {disk before after : Disk} {path : Path} {folder place : Place} {name inner : String}
  {fault : Fault}

/-! ### Directories that are there -/

/-- Where there is a directory, none is made. -/
theorem makeDirs_of_isDir (is : disk.isDir path = .ok true) (existing : Bool) :
    (disk.makeDirs existing path).2 = disk := by
  obtain ⟨-, found, leads, dir⟩ := lookUp_of_isDir is
  obtain ⟨left, arrives⟩ := arrive_of_walk (lookUp_eq_ok_iff.mp leads).2 dir
  obtain ⟨fault, fails, other⟩ := makeDir_of_arrive arrives dir
  exact makeDirs_eq_self fails other existing

/-- Nothing is made if the last directory cannot be and nothing is made above it. -/
theorem makeDirs_blocked (fails : disk.makeDir path = .error fault)
    (above : (disk.makeDirs true path.parent).2 = disk) :
    ∃ fault, disk.makeDirs false path = (.error fault, disk) := by
  rw [makeDirs, fails]
  split
  · next same => cases same
  · exact ⟨_, rfl⟩
  · exact ⟨_, rfl⟩
  · split
    · exact ⟨_, rfl⟩
    · rcases first : disk.makeDirs true path.parent with ⟨fault' | _, made⟩
      · rw [first] at above
        exact ⟨fault', congrArg (Prod.mk _) above⟩
      · rw [first] at above
        obtain rfl : made = disk := above
        dsimp only
        rw [fails]
        exact ⟨_, rfl⟩
  · exact ⟨_, rfl⟩

theorem Opens.makeDirs_behind (opens : disk.Opens path folder) (tree : disk.IsTree)
    (plain : IsPlain name) (plain' : IsPlain inner)
    (short : Text.exceeds pathLimit (path.down [name]).text = false)
    (stands : disk.get? (folder ++ [name]) ≠ none)
    (other : ∀ found, disk.lookUp .target (path.down [name]) = .ok found →
      disk.get? found ≠ some .dir) :
    ∃ fault, disk.makeDirs false (path.down [name, inner]) = (.error fault, disk) := by
  obtain ⟨left, looked⟩ := opens.exists_lookUp
  have missing : disk.arrive left folder [name] = none := by
    rcases arrives : disk.arrive left folder [name] with _ | ⟨left', there⟩
    · rfl
    · refine absurd (tree.dir_of_arrive (opens.dir tree) arrives) (other there ?_)
      rw [looked [name] _ (by simp) (by simp [plain.ne_empty]), short]
      exact walk_target_of_arrive arrives
  have leads : ∃ code, disk.lookUp .entry (path.down [name, inner]) = .error code := by
    rw [looked [name, inner] _ (by simp) (by simp)]
    split
    · exact ⟨_, rfl⟩
    · exact walk_append_of_not_arrive (by simp) (by simp [plain'.ne_empty]) missing
  have fails : ∃ fault, disk.makeDir (path.down [name, inner]) = .error fault := by
    obtain ⟨code, leads⟩ := leads
    rw [makeDir, locateEntry, atPath, leads]
    split
    · exact ⟨_, rfl⟩
    · exact ⟨_, rfl⟩
  have parent : (path.down [name, inner]).parent = path.down [name] := by
    rw [← Path.parent_down (path.down [name]) inner, Path.down_down]
    rfl
  -- What stands there is in the way of the directory above.
  have above : ∃ fault, disk.makeDir (path.down [name]) = .error fault ∧
      ∀ operands, fault ≠ .met .notFound operands := by
    rcases entered : disk.lookUp .entry (path.down [name]) with code | found
    · refine makeDir_of_lookUp_error entered ?_
      rw [looked [name] _ (by simp) (by simp [plain.ne_empty]), walk_entry_plain plain] at entered
      rintro rfl
      split at entered
      · cases entered
      · split at entered <;> cases entered
    · obtain ⟨rfl, -⟩ := opens.lookUp_entry plain entered
      obtain ⟨entry, stands⟩ := Option.ne_none_iff_exists'.mp stands
      rcases made : disk.makeDir (path.down [name]) with fault | after
      · refine ⟨fault, rfl, ?_⟩
        rintro operands rfl
        exact makeDir_ne_notFound entered operands made
      · obtain ⟨-, place, entered', none, -⟩ := located_of_makeDir made
        cases entered.symm.trans entered'
        rw [stands] at none
        cases none
  obtain ⟨fault, fails⟩ := fails
  obtain ⟨fault', fails', other⟩ := above
  refine makeDirs_blocked fails ?_
  rw [parent, makeDirs_eq_self fails' other]

/-! ### Approached directories -/

/-- A path leads to a directory that it opens, or to a place at which there is nothing so far. -/
inductive Approaches (disk : Disk) (path : Path) (folder : Place) : Prop where
  | opened : disk.Opens path folder → Approaches disk path folder
  | missing (margin : Margin) : margin.Reaches disk path folder → margin.Linkless disk →
    (∀ more, disk.get? (folder ++ more) = none) → Approaches disk path folder

/-- If a directory cannot be made, then nothing comes to stand at its place. -/
theorem get?_of_makeDirs_error {margin : Margin} {existing : Bool}
    (reaches : margin.Reaches disk path folder) (linkless : margin.Linkless disk)
    (free : disk.get? folder = none) (fails : disk.makeDirs existing path = (.error fault, after)) :
    after.get? folder = .none := by
  rw [makeDirs] at fails
  split at fails
  · cases fails
  · cases fails
    exact free
  · cases fails
    exact free
  · next operands missing =>
    split at fails
    · cases fails
      exact free
    · have same : (disk.makeDirs true path.parent).2.get? folder = .none := by
        rw [(reaches.parent ⟨operands, missing⟩).get?_makeDirs linkless true, free]
        intro is
        have short := is.length_le
        obtain ⟨way, names, left, above, -, -, rfl, named, -⟩ := reaches.exists_way
        have := length_pos_iff.mpr named
        simp at short
        omega
      rcases first : disk.makeDirs true path.parent with ⟨fault' | _, above⟩
      · rw [first] at fails same
        cases fails
        exact same
      · rw [first] at fails same
        dsimp only at fails
        split at fails
        · cases fails
        · obtain ⟨-, rfl⟩ := Prod.mk.inj fails
          exact same
  · obtain ⟨-, rfl⟩ := Prod.mk.inj fails
    exact free

/-- Plain names lead to a place where nothing stands, or they do not lead there. -/
theorem walk_missing (links : Nat) {names : List String} (plain : ∀ name ∈ names, IsPlain name)
    (fits : ∀ name ∈ names, Text.exceeds nameLimit name = false) (clear : disk.Clear place names)
    (free : disk.get? (place ++ names) = none) :
    disk.walk .target links place names = .ok (place ++ names) ∨
      ∃ code, disk.walk .target links place names = .error code ∧ code.meansAbsent = true := by
  induction names generalizing place with
  | nil => exact .inl (by rw [walk_nil, append_nil])
  | cons name rest ih =>
    have later : ∀ other ∈ rest, IsPlain other := (forall_mem_cons.mp plain).2
    rw [walk_step (plain name mem_cons_self) (ne_asks later),
      if_neg (by simp [fits name mem_cons_self])]
    rcases stands : disk.get? (place ++ [name]) with _ | ⟨contents, mode⟩ | _ | target
    · by_cases last : rest = []
      · exact .inl (by simp [last])
      · exact .inr ⟨.notFound, by simp [last], rfl⟩
    · by_cases last : rest = []
      · rw [last, stands] at free
        cases free
      · exact .inr ⟨.notDirectory, by simp [last], rfl⟩
    · dsimp only
      rw [append_cons place name rest] at free ⊢
      refine ih later (forall_mem_cons.mp fits).2 ?_ free
      intro shorter named below target
      rw [append_assoc]
      exact clear (name :: shorter) (by simp) (by simpa using below) target
    · exact absurd stands (clear [name] (by simp) (by simp) target)

namespace Approaches

section

variable (approaches : disk.Approaches path folder)

include approaches

section

variable (tree : disk.IsTree)

include tree

/-- Nothing changes in the directory when it is made. -/
theorem get?_makeDirs {more : List String} (deeper : more ≠ []) :
    (disk.makeDirs true path).2.get? (folder ++ more) = disk.get? (folder ++ more) := by
  cases approaches with
  | opened opens => rw [opens.makeDirs_self tree]
  | missing margin reaches linkless none =>
    refine reaches.get?_makeDirs linkless true fun is => ?_
    have := length_pos_iff.mpr deeper
    have short := is.length_le
    rw [length_append] at short
    omega

theorem opens_of_makeDirs (ends : disk.makeDirs true path = (.ok (), after)) :
    after.Opens path folder := by
  cases approaches with
  | opened opens =>
    have same := opens.makeDirs_self tree true
    rw [ends] at same
    obtain rfl : after = disk := same
    exact opens
  | missing margin reaches linkless none =>
    refine reaches.opens_of_makeDirs linkless tree (fun more _ fixed => ?_) ends
    cases (get?_of_isFixed fixed).symm.trans (none more)

theorem of_makeDirs_error
    (fails : disk.makeDirs true path = (.error fault, after)) : after.Approaches path folder := by
  have same : ∀ more, more ≠ [] → after.get? (folder ++ more) = disk.get? (folder ++ more) := by
    intro more deeper
    have same := approaches.get?_makeDirs tree deeper
    rwa [fails] at same
  cases approaches with
  | opened opens =>
    have same := opens.makeDirs_self tree true
    rw [fails] at same
    obtain rfl : after = disk := same
    exact .opened opens
  | missing margin reaches linkless none =>
    have tends := Margin.tends_makeDirs reaches.holds linkless true
    rw [fails] at tends
    refine .missing margin (reaches.mono tends.alters.keepsWays) tends.linkless fun more => ?_
    by_cases deeper : more = []
    · rw [deeper, append_nil]
      exact get?_of_makeDirs_error reaches linkless (by simpa using none []) fails
    · rw [same more deeper, none]

theorem makeDirs : (disk.makeDirs true path).2.Approaches path folder := by
  rcases ends : disk.makeDirs true path with ⟨fault | _, after⟩
  · exact approaches.of_makeDirs_error tree ends
  · exact .opened (approaches.opens_of_makeDirs tree ends)

end

/-- A directory that can be made is there before, or there is nothing at its path. -/
theorem opens_or_missing
    (ends : disk.makeDirs true path = (.ok (), after)) (opens : after.Opens path folder) :
    disk.Opens path folder ∨
      disk.pathExists path = .ok false ∧ ∀ more, disk.get? (folder ++ more) = none := by
  cases approaches with
  | opened opens => exact .inl opens
  | missing margin reaches linkless none =>
    refine .inr ⟨?_, none⟩
    have tends := Margin.tends_makeDirs reaches.holds linkless true
    rw [ends] at tends
    obtain ⟨way, names, left, above, arrives, whole, rfl, named, plain, inside⟩ := reaches.exists_way
    have clear : ∀ {disk : Disk}, margin.Linkless disk → disk.Clear above names :=
      fun linkless shorter deeper below target => linkless.get?_ne (inside shorter deeper below) target
    -- The names that follow fit, or the directory could not have been made.
    have fits : ∀ name ∈ names, Text.exceeds nameLimit name = false := by
      obtain ⟨left', arrived⟩ := opens.arrive
      have leads := walk_target_of_arrive arrived
      have starts : after.startOf path = disk.startOf path := by
        rw [startOf, startOf, tends.alters.home]
      have arrives := arrive_mono (tends.alters.keepsWays.trans (Margin.keepsWays_without margin after))
        arrives
      rw [starts, whole, walk_append_of_arrive named (ne_asks plain) arrives] at leads
      exact (walk_down plain (clear tends.linkless) leads).2
    obtain ⟨usable, short⟩ := usable_of_makeDirs ends
    have arrives := arrive_mono (Margin.keepsWays_without margin disk) arrives
    rw [pathExists, status, usable, lookUp, short, whole,
      walk_append_of_arrive named (ne_asks plain) arrives]
    have nothing : disk.get? (above ++ names) = Option.none := by simpa using none []
    rcases walk_missing left plain fits (clear linkless) nothing with leads | ⟨code, fails, absent⟩
    · simp [leads, Except.map, nothing]
    · simp [fails, Except.map, absent]

end

end Approaches

/-! ### Disks from which something is taken away -/

/-- The second disk has nothing that the first has not. -/
structure Shrinks (before after : Disk) : Prop where
  home : after.home = before.home
  had : ∀ place entry, after.get? place = some entry → before.get? place = some entry

theorem shrinks_eraseTree (disk : Disk) (top : Place) : Shrinks disk (disk.eraseTree top) :=
  ⟨rfl, fun _ _ => get?_of_get?_eraseTree⟩

namespace Shrinks

theorem refl (disk : Disk) : Shrinks disk disk :=
  ⟨rfl, fun _ _ => id⟩

theorem trans {first second third : Disk} (one : Shrinks first second) (other : Shrinks second third) :
    Shrinks first third :=
  ⟨other.home.trans one.home, fun place entry found => one.had place entry (other.had place entry found)⟩

section

variable (shrinks : Shrinks before after)

include shrinks

/-- Names lead where they led, or to nothing. -/
theorem walk (links : Nat) (place : Place) (names : List String) :
    after.walk .target links place names = before.walk .target links place names ∨
      after.walk .target links place names = .error .notFound ∨
      ∃ found, after.walk .target links place names = .ok found ∧ after.get? found = none := by
  fun_induction arrive after links place names with
  | case1 links place => exact .inl (by rw [walk_nil, walk_nil])
  | case2 links place name rest here ih =>
    rw [walk_cons, if_pos here, walk_cons, if_pos here]
    exact ih
  | case3 links place rest here ih =>
    rw [walk_cons, if_neg here, if_pos rfl, walk_cons, if_neg here, if_pos rfl]
    exact ih
  | case4 links place name rest here up long =>
    have fails : ∀ disk : Disk, disk.walk .target links place (name :: rest) = .error .nameTooLong := by
      intro disk
      rw [walk_cons, if_neg here, if_neg up, if_neg (by simp), if_pos long]
    exact .inl (by rw [fails, fails])
  | case5 place name rest here up long target link =>
    rw [walk_target_cons here up long, walk_target_cons here up long, link, shrinks.had _ _ link]
    exact .inl rfl
  | case6 place name rest here up long target link left' ih =>
    rw [walk_target_cons here up long, walk_target_cons here up long, link, shrinks.had _ _ link]
    exact ih
  | case7 links place name rest here up long dir ih =>
    rw [walk_target_cons here up long, walk_target_cons here up long, dir, shrinks.had _ _ dir]
    exact ih
  | case8 links place name rest here up long noLink noDir =>
    rw [walk_target_cons here up long, walk_target_cons here up long]
    rcases stands : after.get? (place ++ [name]) with _ | ⟨contents, mode⟩ | _ | target
    · by_cases last : rest = []
      · exact .inr (.inr ⟨place ++ [name], by simp [last], stands⟩)
      · exact .inr (.inl (by simp [last]))
    · rw [shrinks.had _ _ stands]
      exact .inl rfl
    · exact absurd stands noDir
    · exact absurd stands (noLink target)

theorem lookUp (path : Path) :
    after.lookUp .target path = before.lookUp .target path ∨
      after.lookUp .target path = .error .notFound ∨
      ∃ found, after.lookUp .target path = .ok found ∧ after.get? found = none := by
  have starts : after.startOf path = before.startOf path := by
    rw [startOf, startOf, shrinks.home]
  rw [Disk.lookUp, Disk.lookUp]
  split
  · exact .inl rfl
  · rw [starts]
    exact shrinks.walk linkLimit (before.startOf path) path.names

/-- What could be asked about can still be asked about. -/
theorem exists_isDir {is : Bool} (asked : before.isDir path = .ok is) :
    ∃ is, after.isDir path = .ok is := by
  rw [isDir, status] at asked
  rw [isDir, status]
  split at asked
  · next unusable =>
    rw [if_pos unusable]
    exact ⟨_, rfl⟩
  · next usable =>
    rw [if_neg usable]
    rcases shrinks.lookUp path with same | gone | ⟨found, leads, -⟩
    · rw [same]
      cases leads : before.lookUp .target path with
      | ok found => exact ⟨_, rfl⟩
      | error code =>
        rw [leads] at asked
        by_cases absent : code.meansAbsent = true
        · exact ⟨false, by simp [absent, Except.map]⟩
        · simp [absent, Except.map] at asked
    · rw [gone]
      exact ⟨false, rfl⟩
    · rw [leads]
      exact ⟨_, rfl⟩

end

end Shrinks
end Disk
end Whittle
