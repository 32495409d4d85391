import Whittle.Disk.Lookup
import Whittle.Proofs.Disk.Entries

/-!
The ways that lead to a place. All names of a path but the last lead to a directory
(`Disk.arrive`), and the last one is looked up there; so a lookup comes to the same
place for as long as the directories and links on the way stay what they are, whatever
else becomes of the disk.
-/

namespace Whittle.Disk

open List

variable {name : String} {links : Nat} {rest : List String}

/-- The directory that names lead to from the one at `place`, with the number of links that may
still be followed. -/
def arrive (disk : Disk) (links : Nat) (place : Place) (names : List String) :
    Option (Nat × Place) :=
  match names with
  | [] => some (links, place)
  | name :: rest =>
    if isHere name then arrive disk links place rest
    else if name = ".." then arrive disk links place.dropLast rest
    else if Text.exceeds nameLimit name then none
    else
      match disk.get? (place ++ [name]) with
      | some (.link target) =>
        match links with
        | 0 => none
        | left + 1 =>
          arrive disk left (if target.startsWith "/" then [] else place) (stepsOf target ++ rest)
      | some .dir => arrive disk links (place ++ [name]) rest
      | _ => none
termination_by (links, names.length)

/-- A name that leads from a directory to what stands in it. -/
structure IsPlain (name : String) : Prop where
  notHere : isHere name = false
  notUp : name ≠ ".."

theorem IsPlain.ne_empty (plain : IsPlain name) : name ≠ "" := by
  rintro rfl
  exact Bool.noConfusion plain.notHere

variable {disk after : Disk} {aim : Aim} {left : Nat} {place folder : Place}
  {names more : List String}

theorem append_ne_here (nonnil : more ≠ []) (asks : more ≠ [""]) : rest ++ more ≠ [""] := by
  cases rest with
  | nil => exact asks
  | cons head tail => simp [nonnil]

@[simp] theorem walk_nil : disk.walk aim links place [] = .ok place := by
  cases links <;> rfl

theorem walk_cons : disk.walk aim links place (name :: rest) =
      if isHere name then disk.walk aim links place rest
      else if name = ".." then disk.walk aim links place.dropLast rest
      else if aim = .creation && rest = [""] then .error .isDirectory
      else if Text.exceeds nameLimit name then .error .nameTooLong
      else
        match disk.get? (place ++ [name]) with
        | some (.link target) =>
          if rest.isEmpty && aim = .entry then .ok (place ++ [name])
          else match links with
            | 0 => .error .linkLoop
            | left + 1 =>
              disk.walk aim left (if target.startsWith "/" then [] else place)
                (stepsOf target ++ rest)
        | some .dir => disk.walk aim links (place ++ [name]) rest
        | some (.file _ _) =>
          if rest.isEmpty then .ok (place ++ [name]) else .error .notDirectory
        | none => if rest.isEmpty then .ok (place ++ [name]) else .error .notFound := by
  cases links <;> rfl

theorem walk_step (plain : IsPlain name) (asks : rest ≠ [""]) :
    disk.walk aim links place (name :: rest) =
      if Text.exceeds nameLimit name then .error .nameTooLong
      else
        match disk.get? (place ++ [name]) with
        | some (.link target) =>
          if rest.isEmpty && aim = .entry then .ok (place ++ [name])
          else match links with
            | 0 => .error .linkLoop
            | left + 1 =>
              walk disk aim left (if target.startsWith "/" then [] else place)
                (stepsOf target ++ rest)
        | some .dir => walk disk aim links (place ++ [name]) rest
        | some (.file _ _) =>
          if rest.isEmpty then .ok (place ++ [name]) else .error .notDirectory
        | none => if rest.isEmpty then .ok (place ++ [name]) else .error .notFound := by
  rw [walk_cons, if_neg (by simp [plain.notHere]), if_neg plain.notUp, if_neg (by simp [asks])]

section

variable (nonnil : more ≠ []) (asks : more ≠ [""])

include nonnil asks

/-- What names lead to after others is looked up where those arrive, and nothing is found after them
if they do not. -/
theorem walk_append :
    ∃ code, disk.walk aim links place (names ++ more) =
      match disk.arrive links place names with
      | .some (left, folder) => disk.walk aim left folder more
      | none => .error code := by
  fun_induction arrive disk links place names with
  | case1 links place => exact ⟨.notFound, rfl⟩
  | case2 links place name rest here ih =>
    rw [cons_append, walk_cons, if_pos here]
    exact ih
  | case3 links place rest here ih =>
    rw [cons_append, walk_cons, if_neg here, if_pos rfl]
    exact ih
  | case4 links place name rest here up long =>
    rw [cons_append, walk_step ⟨by simpa using here, up⟩ (append_ne_here nonnil asks), if_pos long]
    exact ⟨_, rfl⟩
  | case5 place name rest here up long target found =>
    rw [cons_append, walk_step ⟨by simpa using here, up⟩ (append_ne_here nonnil asks),
      if_neg long, found]
    dsimp only
    rw [if_neg (by simp [nonnil])]
    exact ⟨_, rfl⟩
  | case6 place name rest here up long target found left' ih =>
    rw [cons_append, walk_step ⟨by simpa using here, up⟩ (append_ne_here nonnil asks),
      if_neg long, found]
    dsimp only
    rw [if_neg (by simp [nonnil]), ← append_assoc]
    exact ih
  | case7 links place name rest here up long found ih =>
    rw [cons_append, walk_step ⟨by simpa using here, up⟩ (append_ne_here nonnil asks),
      if_neg long, found]
    exact ih
  | case8 links place name rest here up long noLink noDir =>
    rw [cons_append, walk_step ⟨by simpa using here, up⟩ (append_ne_here nonnil asks), if_neg long]
    rcases found : disk.get? (place ++ [name]) with _ | ⟨contents, mode⟩ | _ | target
    · simp [nonnil]
    · simp [nonnil]
    · exact absurd found noDir
    · exact absurd found (noLink target)

theorem walk_append_of_arrive (arrives : disk.arrive links place names = .some (left, folder)) :
    disk.walk aim links place (names ++ more) = disk.walk aim left folder more := by
  obtain ⟨code, same⟩ := walk_append nonnil asks
  rw [same, arrives]

theorem walk_append_of_not_arrive (lost : disk.arrive links place names = none) :
    ∃ code, disk.walk aim links place (names ++ more) = .error code := by
  obtain ⟨code, same⟩ := walk_append nonnil asks
  exact ⟨code, by rw [same, lost]⟩

theorem arrives_of_walk {found : Place}
    (leads : disk.walk aim links place (names ++ more) = .ok found) :
    ∃ left folder, disk.arrive links place names = .some (left, folder) := by
  obtain ⟨code, same⟩ := walk_append nonnil asks
  rw [same] at leads
  split at leads
  · next left folder arrives => exact ⟨left, folder, arrives⟩
  · cases leads

end

/-- The directories and links of one disk are those of another, which may have more directories. -/
structure KeepsWays (before after : Disk) : Prop where
  home : after.home = before.home
  dirs : ∀ place, before.get? place = some .dir → after.get? place = some .dir
  links : ∀ place target,
    before.get? place = some (.link target) → after.get? place = some (.link target)

namespace KeepsWays

theorem trans {first second third : Disk} (one : KeepsWays first second)
    (other : KeepsWays second third) : KeepsWays first third where
  home := other.home.trans one.home
  dirs place := other.dirs place ∘ one.dirs place
  links place target := other.links place target ∘ one.links place target

end KeepsWays

section

variable (keeps : KeepsWays disk after)
  (arrives : disk.arrive links place names = some (left, folder))

include keeps arrives

/-- Where the ways are kept, names arrive where they did, and those after them go on from there. -/
theorem arrive_append :
    after.arrive links place (names ++ more) = after.arrive left folder more := by
  fun_induction arrive disk links place names with
  | case1 links place => cases arrives; rfl
  | case2 links place name rest here ih => rw [cons_append, arrive, if_pos here, ih arrives]
  | case3 links place rest here ih => rw [cons_append, arrive, if_neg here, if_pos rfl, ih arrives]
  | case4 links place name rest here up long => cases arrives
  | case5 place name rest here up long target found => cases arrives
  | case6 place name rest here up long target found left' ih =>
    rw [cons_append, arrive, if_neg here, if_neg up, if_neg long, keeps.links _ _ found]
    dsimp only
    rw [← append_assoc]
    exact ih arrives
  | case7 links place name rest here up long found ih =>
    rw [cons_append, arrive, if_neg here, if_neg up, if_neg long, keeps.dirs _ found]
    exact ih arrives
  | case8 => cases arrives

theorem arrive_mono :
    after.arrive links place names = some (left, folder) := by
  rw [← append_nil names, arrive_append keeps arrives, arrive]

end

theorem arrive_cons_dir (plain : IsPlain name)
    (short : Text.exceeds nameLimit name = false) (dir : disk.get? (place ++ [name]) = some .dir) :
    disk.arrive links place (name :: rest) = disk.arrive links (place ++ [name]) rest := by
  rw [arrive, if_neg (by simp [plain.notHere]), if_neg plain.notUp, if_neg (by simp [short]), dir]

theorem walk_entry_plain (plain : IsPlain name) : disk.walk .entry links place [name] =
      if Text.exceeds nameLimit name then .error .nameTooLong else .ok (place ++ [name]) := by
  rw [walk_step plain (by simp)]
  rcases disk.get? (place ++ [name]) with _ | entry
  · rfl
  · cases entry <;> simp

/-- Where the ways are kept, names lead to the entry that they led to. -/
theorem walk_mono {found : Place} (keeps : KeepsWays disk after)
    (leads : disk.walk .entry links place names = .ok found) :
    after.walk .entry links place names = .ok found := by
  fun_induction arrive disk links place names with
  | case1 links place => rwa [walk_nil] at leads ⊢
  | case2 links place name rest here ih =>
    rw [walk_cons, if_pos here] at leads ⊢
    exact ih leads
  | case3 links place rest here ih =>
    rw [walk_cons, if_neg here, if_pos rfl] at leads ⊢
    exact ih leads
  | case4 links place name rest here up long =>
    rw [walk_cons, if_neg here, if_neg up, if_neg (by simp), if_pos long] at leads
    cases leads
  | case5 place name rest here up long target link =>
    rw [walk_cons, if_neg here, if_neg up, if_neg (by simp), if_neg long] at leads ⊢
    simp only [link, keeps.links _ _ link] at leads ⊢
    exact leads
  | case6 place name rest here up long target link left' ih =>
    rw [walk_cons, if_neg here, if_neg up, if_neg (by simp), if_neg long] at leads ⊢
    simp only [link, keeps.links _ _ link] at leads ⊢
    split at leads
    · next last => rwa [if_pos last]
    · next more =>
      rw [if_neg more]
      exact ih leads
  | case7 links place name rest here up long dir ih =>
    rw [walk_cons, if_neg here, if_neg up, if_neg (by simp), if_neg long] at leads ⊢
    simp only [dir, keeps.dirs _ dir] at leads ⊢
    exact ih leads
  | case8 links place name rest here up long noLink noDir =>
    cases rest with
    | nil => rwa [walk_entry_plain ⟨by simpa using here, up⟩] at leads ⊢
    | cons next rest =>
      rw [walk_cons, if_neg here, if_neg up, if_neg (by simp), if_neg long] at leads
      rcases stands : disk.get? (place ++ [name]) with _ | ⟨contents, mode⟩ | _ | target
      · simp [stands] at leads
      · simp [stands] at leads
      · exact absurd stands noDir
      · exact absurd stands (noLink target)

/-- Unless it is a link, what stands in a directory is found there for any purpose. -/
theorem walk_plain (plain : IsPlain name)
    (noLink : ∀ target, disk.get? (place ++ [name]) ≠ some (.link target)) :
    disk.walk aim links place [name] = disk.walk .entry links place [name] := by
  rw [walk_entry_plain plain, walk_step plain (by simp)]
  rcases found : disk.get? (place ++ [name]) with _ | entry
  · rfl
  · cases entry with
    | file contents mode => rfl
    | dir => simp
    | link target => exact absurd found (noLink target)

theorem walk_of_arrive (arrives : disk.arrive links place names = some (left, folder)) :
    ∃ found, disk.walk .entry links place names = .ok found ∧
      (found = folder ∨ ∃ target, disk.get? found = some (.link target)) := by
  fun_induction arrive disk links place names with
  | case1 links place => cases arrives; exact ⟨folder, by rw [walk_nil], .inl rfl⟩
  | case2 links place name rest here ih => rw [walk_cons, if_pos here]; exact ih arrives
  | case3 links place rest here ih => rw [walk_cons, if_neg here, if_pos rfl]; exact ih arrives
  | case4 links place name rest here up long => cases arrives
  | case5 place name rest here up long target found => cases arrives
  | case6 place name rest here up long target found left' ih =>
    rw [walk_cons, if_neg here, if_neg up, if_neg (by simp), if_neg long]
    simp only [found]
    by_cases last : rest = []
    · exact ⟨place ++ [name], by simp [last], .inr ⟨target, found⟩⟩
    · rw [if_neg (by simp [last])]
      exact ih arrives
  | case7 links place name rest here up long found ih =>
    rw [walk_cons, if_neg here, if_neg up, if_neg (by simp), if_neg long]
    simp only [found]
    exact ih arrives
  | case8 => cases arrives

theorem walk_target_cons (here : ¬ isHere name = true)
    (up : name ≠ "..") (fits : ¬ Text.exceeds nameLimit name = true) :
    disk.walk .target links place (name :: rest) =
      match disk.get? (place ++ [name]) with
      | some (.link target) =>
        match links with
        | 0 => .error .linkLoop
        | left + 1 => disk.walk .target left (if target.startsWith "/" then [] else place)
          (stepsOf target ++ rest)
      | some .dir => disk.walk .target links (place ++ [name]) rest
      | some (.file _ _) => if rest.isEmpty then .ok (place ++ [name]) else .error .notDirectory
      | none => if rest.isEmpty then .ok (place ++ [name]) else .error .notFound := by
  rw [walk_cons, if_neg here, if_neg up, if_neg (by simp), if_neg fits]
  rcases disk.get? (place ++ [name]) with _ | ⟨contents, mode⟩ | _ | target
  · rfl
  · rfl
  · rfl
  · refine (if_neg (by simp)).trans ?_
    cases links <;> rfl

theorem walk_target (disk : Disk) (links : Nat) (place : Place) (names : List String) :
    match disk.arrive links place names with
    | some (_, folder) => disk.walk .target links place names = .ok folder
    | none => ∀ found, disk.walk .target links place names = .ok found →
      disk.get? found ≠ some .dir := by
  fun_induction arrive disk links place names with
  | case1 links place => exact walk_nil
  | case2 links place name rest here ih => rwa [walk_cons, if_pos here]
  | case3 links place rest here ih => rwa [walk_cons, if_neg here, if_pos rfl]
  | case4 links place name rest here up long =>
    rw [walk_cons, if_neg here, if_neg up, if_neg (by simp), if_pos long]
    exact fun _ leads => by cases leads
  | case5 place name rest here up long target link =>
    rw [walk_target_cons here up long, link]
    exact fun _ leads => by cases leads
  | case6 place name rest here up long target link left' ih => rwa [walk_target_cons here up long, link]
  | case7 links place name rest here up long dir ih => rwa [walk_target_cons here up long, dir]
  | case8 links place name rest here up long noLink noDir =>
    rw [walk_target_cons here up long]
    intro found leads dir
    rcases stands : disk.get? (place ++ [name]) with _ | ⟨contents, mode⟩ | _ | target
    · simp only [stands] at leads
      split at leads <;> cases leads
      cases stands.symm.trans dir
    · simp only [stands] at leads
      split at leads <;> cases leads
      cases stands.symm.trans dir
    · exact noDir stands
    · exact noLink target stands

theorem walk_target_of_arrive (arrives : disk.arrive links place names = some (left, folder)) :
    disk.walk .target links place names = .ok folder := by
  have leads := walk_target disk links place names
  rwa [arrives] at leads

theorem arrive_of_walk (leads : disk.walk .target links place names = .ok folder)
    (dir : disk.get? folder = some .dir) :
    ∃ left, disk.arrive links place names = some (left, folder) := by
  have target := walk_target disk links place names
  split at target
  · next left found arrives =>
    cases leads.symm.trans target
    exact ⟨left, arrives⟩
  · exact absurd dir (target folder leads)

/-! ### Ways down -/

theorem ne_asks (plain : ∀ name ∈ names, IsPlain name) : names ≠ [""] := by
  rintro rfl
  exact (plain "" (by simp)).ne_empty rfl

/-- No link stands where names lead down. -/
def Clear (disk : Disk) (place : Place) (names : List String) : Prop :=
  ∀ shorter, shorter ≠ [] → shorter <+: names →
    ∀ target, disk.get? (place ++ shorter) ≠ some (.link target)

theorem clear_singleton (noLink : ∀ target, disk.get? (place ++ [name]) ≠ some (.link target)) :
    disk.Clear place [name] := by
  rintro shorter deeper ⟨rest, whole⟩ target
  cases shorter with
  | nil => exact absurd rfl deeper
  | cons first others =>
    obtain ⟨rfl, ends⟩ := cons.inj whole
    rw [(append_eq_nil_iff.mp ends).1]
    exact noLink target

theorem walk_down {found : Place} (plain : ∀ name ∈ names, IsPlain name)
    (clear : disk.Clear place names) (leads : disk.walk aim links place names = .ok found) :
    found = place ++ names ∧ ∀ name ∈ names, Text.exceeds nameLimit name = false := by
  induction names generalizing place with
  | nil =>
    rw [walk_nil] at leads
    cases leads
    simp
  | cons name rest ih =>
    have later : ∀ other ∈ rest, IsPlain other := (forall_mem_cons.mp plain).2
    have first := clear [name] (by simp) (by simp)
    rw [walk_step (plain name mem_cons_self) (ne_asks later)] at leads
    split at leads
    · cases leads
    · next short =>
      have short : Text.exceeds nameLimit name = false := Bool.eq_false_iff.mpr short
      rcases stands : disk.get? (place ++ [name]) with _ | ⟨contents, mode⟩ | _ | target
      · simp only [stands, List.isEmpty_iff] at leads
        split at leads <;> cases leads
        next last => simp [last, short]
      · simp only [stands, List.isEmpty_iff] at leads
        split at leads <;> cases leads
        next last => simp [last, short]
      · simp only [stands] at leads
        have down := ih later (fun shorter named below target => by
          rw [append_assoc]
          exact clear (name :: shorter) (by simp) (by simpa using below) target) leads
        refine ⟨by rw [down.1, append_assoc]; rfl, fun other member => ?_⟩
        rcases mem_cons.mp member with rfl | member
        · exact short
        · exact down.2 other member
      · exact absurd stands (first target)

/-! ### Paths -/

variable {path : Path} {seat : Place} {other : String}

theorem lookUp_eq_ok_iff : disk.lookUp aim path = .ok place ↔
    Text.exceeds pathLimit path.text = false ∧
      disk.walk aim linkLimit (disk.startOf path) path.names = .ok place := by
  rw [lookUp]
  split
  · next long => simp [long]
  · next short => simp [short]

theorem names_eq_parent_append (plain : IsPlain path.name) :
    path.names = path.parent.names ++ [path.name] := by
  have some : path.names ≠ [] := by
    intro none
    exact plain.ne_empty (by simp [Path.name, none])
  rw [Path.name, Path.parent, getLast?_eq_some_getLast some, Option.getD_some,
    dropLast_concat_getLast]

theorem lookUp_of_arrive (plain : IsPlain path.name) (arrives :
      disk.arrive linkLimit (disk.startOf path) path.parent.names = some (left, folder)) :
    disk.lookUp aim path =
      if Text.exceeds pathLimit path.text then .error .nameTooLong
      else disk.walk aim left folder [path.name] := by
  have found : disk.walk aim linkLimit (disk.startOf path) (path.parent.names ++ [path.name]) =
      disk.walk aim left folder [path.name] :=
    walk_append_of_arrive (by simp) (by simp [plain.ne_empty]) arrives
  rw [lookUp, ← found, ← names_eq_parent_append plain]

/-- A path of a plain name that leads to a place leads there through the directory above it. -/
theorem exists_arrive_of_lookUp (plain : IsPlain path.name)
    (leads : disk.lookUp .entry path = .ok seat) :
    Text.exceeds pathLimit path.text = false ∧ Text.exceeds nameLimit path.name = false ∧
      ∃ left folder, disk.arrive linkLimit (disk.startOf path) path.parent.names =
        some (left, folder) ∧ seat = folder ++ [path.name] := by
  have walks := (lookUp_eq_ok_iff.mp leads).2
  rw [names_eq_parent_append plain] at walks
  obtain ⟨left, folder, arrives⟩ := arrives_of_walk (by simp) (by simp [plain.ne_empty]) walks
  rw [lookUp_of_arrive plain arrives, walk_entry_plain plain] at leads
  split at leads
  · cases leads
  · next short =>
    split at leads
    · cases leads
    · next fits =>
      cases leads
      exact ⟨Bool.eq_false_iff.mpr short, Bool.eq_false_iff.mpr fits, left, folder, arrives, rfl⟩

theorem lookUp_mono (keeps : KeepsWays disk after) (leads : disk.lookUp .entry path = .ok seat) :
    after.lookUp .entry path = .ok seat := by
  obtain ⟨short, leads⟩ := lookUp_eq_ok_iff.mp leads
  refine lookUp_eq_ok_iff.mpr ⟨short, ?_⟩
  rw [startOf, keeps.home]
  exact walk_mono keeps leads

section

variable (plain : IsPlain path.name) (leads : disk.lookUp .entry path = .ok seat)

include plain leads

/-- Unless it is a link, what a path leads to is found for any purpose. -/
theorem lookUp_aim
    (noLink : ∀ target, disk.get? seat ≠ some (.link target)) : disk.lookUp aim path = .ok seat := by
  obtain ⟨short, -, left, folder, arrives, rfl⟩ := exists_arrive_of_lookUp plain leads
  rw [lookUp_of_arrive plain arrives, walk_plain plain noLink, ← lookUp_of_arrive plain arrives, leads]

theorem lookUp_withName (plain' : IsPlain other)
    (noLink : ∀ target, disk.get? (seat.dropLast ++ [other]) ≠ some (.link target)) :
    disk.lookUp aim (path.withName other) =
      if Text.exceeds pathLimit (path.withName other).text || Text.exceeds nameLimit other then
        .error .nameTooLong
      else .ok (seat.dropLast ++ [other]) := by
  obtain ⟨-, -, left, folder, arrives, rfl⟩ := exists_arrive_of_lookUp plain leads
  rw [dropLast_concat] at noLink ⊢
  have name : (path.withName other).name = other := by simp [Path.name, Path.withName]
  have parent : (path.withName other).parent = path.parent := by simp [Path.parent, Path.withName]
  have starts : disk.startOf (path.withName other) = disk.startOf path := rfl
  rw [← parent, ← starts] at arrives
  rw [lookUp_of_arrive (name.symm ▸ plain') arrives, name, walk_plain plain' noLink,
    walk_entry_plain plain']
  by_cases long : Text.exceeds pathLimit (path.withName other).text = true <;> simp [long]

end

end Whittle.Disk
