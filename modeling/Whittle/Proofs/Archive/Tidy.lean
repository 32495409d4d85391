import Whittle.Proofs.Archive.Newest

/-!
Tidy directories. Such a directory is approached by its path, and what has digits for its name there is
a file, or a directory with the name of a snapshot (`Archive.Tidy`). So the numbers that an archive finds
there are those of its snapshots, in order (`Archive.Tidy.lists_ids`).
-/

namespace Whittle
namespace Archive

open Disk (Place IsPlain)

/-! ### Names made of digits -/

/-- A name is made of digits. -/
structure IsNumeral (name : String) : Prop where
  ne_empty : name ≠ ""
  digits : ∀ char ∈ name.toList, Text.isDigit char = true

section Names

variable {name : String} {id : Int}

section

variable (numeral : IsNumeral name)

include numeral

theorem IsNumeral.noSlash : '/' ∉ name.toList := by
  intro slash
  exact absurd (numeral.digits '/' slash) (by decide)

theorem IsNumeral.exists_mem : ∃ char ∈ name.toList, char ≠ '.' := by
  obtain ⟨char, member⟩ := List.exists_mem_of_ne_nil name.toList fun none =>
    numeral.ne_empty (String.toList_inj.mp none)
  refine ⟨char, member, ?_⟩
  rintro rfl
  exact absurd (numeral.digits '.' member) (by decide)

theorem IsNumeral.inner : Path.IsInner name := by
  obtain ⟨char, member, other⟩ := numeral.exists_mem
  exact Path.isInner_of_noSlash numeral.noSlash member other

theorem IsNumeral.names_eq : (Path.ofText name).names = [name] := by
  obtain ⟨char, member, other⟩ := numeral.exists_mem
  exact Path.names_of_noSlash numeral.noSlash member other

theorem IsNumeral.plain : IsPlain name :=
  Margin.Holds.plain_of_inner numeral.inner (by simp [numeral.names_eq])

theorem IsNumeral.child_eq (directory : Path) : directory.child name = directory.down [name] := by
  rw [Path.child_eq_down numeral.inner, numeral.names_eq]

end

theorem isNumeral_nameOf (natural : 0 ≤ id) : IsNumeral (nameOf id) :=
  ⟨(plain_nameOf id).ne_empty, fun _ member => isDigit_of_ascii (isDigit_of_mem_nameOf natural member)⟩

theorem IsNumeral.ne_stagingName (numeral : IsNumeral name) (id : Int) : name ≠ stagingName id := by
  rintro rfl
  have all := List.all_eq_true.mpr numeral.digits
  rw [all_isDigit_stagingName] at all
  cases all

end Names

/-! ### Tidy directories -/

variable {archive : Archive} {directory : Path} {folder : Place} {disk before after : Disk}
  {id : Int} {ids : List Int}

/-- A directory for snapshots: its path approaches it, no name in it that is made of digits is that of
a link, and if it is that of a directory it is the name of a snapshot. -/
structure Tidy (directory : Path) (folder : Place) (disk : Disk) : Prop where
  tree : disk.IsTree
  distinct : disk.IsDistinct
  approaches : disk.Approaches directory folder
  unlinked : ∀ name target, IsNumeral name → disk.get? (folder ++ [name]) ≠ some (.link target)
  named : ∀ name, IsNumeral name → disk.get? (folder ++ [name]) = some .dir →
    ∃ id, 0 ≤ id ∧ name = nameOf id

def Stands (folder : Place) (disk : Disk) (id : Int) : Prop :=
  0 ≤ id ∧ disk.get? (folder ++ [nameOf id]) = some .dir

/-- A directory stays tidy if names made of digits are at most taken away or given to snapshots. -/
theorem Tidy.of_places (tidy : Tidy directory folder before) (tree : after.IsTree)
    (distinct : after.IsDistinct) (approaches : after.Approaches directory folder)
    (places : ∀ name, IsNumeral name → after.get? (folder ++ [name]) ≠ none →
      after.get? (folder ++ [name]) = before.get? (folder ++ [name]) ∨
      after.get? (folder ++ [name]) = some .dir ∧ ∃ id, 0 ≤ id ∧ name = nameOf id) :
    Tidy directory folder after := by
  refine ⟨tree, distinct, approaches, fun name target numeral link => ?_, fun name numeral dir => ?_⟩
  · rcases places name numeral (by simp [link]) with same | ⟨dir, -⟩
    · exact tidy.unlinked name target numeral (same ▸ link)
    · rw [dir] at link
      cases link
  · rcases places name numeral (by simp [dir]) with same | ⟨-, known⟩
    · exact tidy.named name numeral (same ▸ dir)
    · exact known

/-! ### Numbers in a tidy directory -/

/-- The numbers in a list are those of the snapshots that stand in a directory, in order. -/
structure Lists (folder : Place) (disk : Disk) (ids : List Int) : Prop where
  order : ids.Pairwise (· < ·)
  members : ∀ id, id ∈ ids ↔ Stands folder disk id

theorem eq_of_mem_iff {others : List Int} (order : ids.Pairwise (· < ·))
    (order' : others.Pairwise (· < ·)) (members : ∀ id, id ∈ ids ↔ id ∈ others) : ids = others := by
  have perm : ids.Perm others :=
    (List.perm_ext_iff_of_nodup (order.imp fun below => Int.ne_of_lt below)
      (order'.imp fun below => Int.ne_of_lt below)).mpr members
  refine perm.eq_of_pairwise (fun one other _ _ below above => ?_) order order'
  exact absurd below (Int.not_lt.mpr (Int.le_of_lt above))

/-- All names of snapshots can stand in a path where one of a staged snapshot can. -/
theorem usable_nameOf (passable : directory.Passable [stagingName id]) (other : Int) :
    Disk.unusable? (directory.down [nameOf other]).text = none := by
  obtain ⟨start, finish, written⟩ := directory.exists_text []
  have usable := passable.usable
  rw [written] at usable ⊢
  exact Text.unusable?_replace (isSimple_stagingName id) (isSimple_nameOf other) usable

section Lists

variable (tidy : Tidy archive.directory folder disk) (opens : disk.Opens archive.directory folder)

include tidy opens

/-- A directory that is counted is that of a snapshot, and its name is read as the number of that. -/
theorem Tidy.of_isCounted {name : String} (counted : archive.IsCounted disk name) :
    ∃ id, name = nameOf id ∧ Stands folder disk id ∧ (Value.text name).toInteger = .ok id := by
  have numeral : IsNumeral name := ⟨counted.ne_empty, counted.digits⟩
  have dir := counted.dir
  rw [numeral.child_eq] at dir
  obtain ⟨-, found, leads, dir⟩ := Disk.lookUp_of_isDir dir
  have clear : disk.Clear folder [name] :=
    Disk.clear_singleton fun target => tidy.unlinked name target numeral
  obtain ⟨rfl, -, fits⟩ := opens.lookUp_down clear (by simpa using numeral.plain) (by simp) leads
  obtain ⟨id, natural, rfl⟩ := tidy.named name numeral dir
  exact ⟨id, rfl, ⟨natural, dir⟩, toInteger_nameOf natural (fits _ (by simp))⟩

section

variable (passable : archive.directory.Passable [])

include passable

/-- Where all entries can be asked about, the directories of snapshots are counted. -/
theorem Tidy.isCounted (usable : Disk.unusable? (archive.directory.down [nameOf id]).text = none)
    (unbarred : ¬ archive.IsBarred disk) (stands : Stands folder disk id) :
    archive.IsCounted disk (nameOf id) := by
  have numeral := isNumeral_nameOf stands.1
  have list := opens.list_eq tidy.tree passable
  have listed : nameOf id ∈ disk.namesIn folder :=
    (Disk.mem_namesIn_iff_get? (opens.outside _ (by simp))).mpr (by simp [stands.2])
  refine ⟨⟨_, list, listed⟩, ?_, numeral.ne_empty, numeral.digits⟩
  rcases asked : disk.isDir (archive.directory.child (nameOf id)) with fault | is
  · exact absurd ⟨_, _, fault, list, listed, asked⟩ unbarred
  · obtain ⟨left, looked⟩ := opens.exists_lookUp
    have noLink : ∀ target, disk.get? (folder ++ [nameOf id]) ≠ some (.link target) := by
      simp [stands.2]
    rw [numeral.child_eq, Disk.isDir, Disk.status, usable,
      looked [nameOf id] _ (by simp) (by simp [numeral.ne_empty]), Disk.walk_plain numeral.plain noLink,
      Disk.walk_entry_plain numeral.plain] at asked
    by_cases long : Text.exceeds Disk.pathLimit (archive.directory.down [nameOf id]).text = true
    · simp [long, Except.map, Disk.Code.meansAbsent] at asked
    · by_cases wide : Text.exceeds Disk.nameLimit (nameOf id) = true
      · simp [long, wide, Except.map, Disk.Code.meansAbsent] at asked
      · simp only [long, wide, Except.map] at asked
        simpa [stands.2] using asked.symm

/-- The numbers that an archive finds are those of the snapshots that stand in its directory. -/
theorem Tidy.lists_ids
    (usable : ∀ id, Disk.unusable? (archive.directory.down [nameOf id]).text = none)
    (found : archive.ids disk = .ok ids) : Lists folder disk ids := by
  have search := archive.search_ids disk
  rw [found] at search
  cases search with
  | found _ unbarred _ sorted members nodup =>
    have nodup : ids.Nodup := List.nodup_iff_count_le_one.mpr fun id => by
      refine nodup tidy.distinct id fun name other counted counted' spelled spelled' => ?_
      obtain ⟨one, rfl, -, read⟩ := tidy.of_isCounted opens counted
      obtain ⟨two, rfl, -, read'⟩ := tidy.of_isCounted opens counted'
      cases read.symm.trans spelled
      cases read'.symm.trans spelled'
      rfl
    refine ⟨sorted.imp₂ (fun _ _ below differ => by omega) nodup, fun id => ?_⟩
    rw [members]
    constructor
    · rintro ⟨name, counted, spelled⟩
      obtain ⟨other, -, stands, read⟩ := tidy.of_isCounted opens counted
      cases read.symm.trans spelled
      exact stands
    · intro stands
      have counted := tidy.isCounted opens passable (usable id) unbarred stands
      obtain ⟨other, same, stands', read⟩ := tidy.of_isCounted opens counted
      cases nameOf_inj stands.1 stands'.1 same
      exact ⟨nameOf id, counted, read⟩

/-- Where all entries can be asked about, an archive finds numbers. -/
theorem Tidy.exists_ids (unbarred : ¬ archive.IsBarred disk) :
    ∃ ids, archive.ids disk = .ok ids := by
  have search := archive.search_ids disk
  generalize archive.ids disk = result at search
  cases search with
  | unread _ _ why =>
    rcases why with barred | unlisted
    · exact absurd barred unbarred
    · exact absurd (opens.list_eq tidy.tree passable) (unlisted _)
  | misread name fault _ counted fails =>
    obtain ⟨id, -, -, read⟩ := tidy.of_isCounted opens counted
    cases read.symm.trans fails
  | found ids => exact ⟨ids, rfl⟩

end

end Lists

end Archive
end Whittle
