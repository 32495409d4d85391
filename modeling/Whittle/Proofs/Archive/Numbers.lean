import Mathlib.Data.List.Nodup
import Mathlib.Data.List.TakeDrop
import Mathlib.Data.List.TakeWhile
import Whittle.Proofs.Archive.Load
import Whittle.Proofs.Orderly

/-!
The numbers of snapshots. The name of a snapshot spells its number (`Archive.toInteger_nameOf`), and
tells it from the names of staged snapshots and of logs. An opened directory is listed, and each of its
names leads to what stands there.
-/

namespace Whittle

open List

variable {text name : String} {char : Char}

/-! ### Numbers read from digits -/

namespace Decimal

theorem digitsValue_zeros (count : Nat) (digits : List Char) :
    digitsValue (replicate count '0' ++ digits) = digitsValue digits := by
  have none : (replicate count '0').foldl
      (fun value digit => value * 10 + (digit.toNat - 48)) 0 = 0 := by
    induction count with
    | zero => rfl
    | succ count ih => exact ih
  rw [digitsValue, foldl_append, none, digitsValue]

variable {chars : List Char}

theorem dropUnderscores_digits (all : ∀ char ∈ chars, char.isDigit = true) (previous : Char) :
    dropUnderscores previous chars = some chars := by
  induction chars generalizing previous with
  | nil => rfl
  | cons char rest ih =>
    have digit := all char mem_cons_self
    have other : char ≠ '_' := by
      rintro rfl
      cases digit
    have later := ih (forall_mem_cons.mp all).2 char
    unfold dropUnderscores
    split
    · next same => cases same
    · next same => exact absurd (cons.inj same).1 other
    · next same => exact absurd (cons.inj same).1 other
    · next same =>
      cases same
      rw [later]
      rfl

theorem dropWhile_digits {wanted : Char → Bool} (all : ∀ char ∈ chars, wanted char = false) :
    chars.dropWhile wanted = chars := by
  cases chars with
  | nil => rfl
  | cons char rest => exact dropWhile_cons_of_neg (by simp [all char mem_cons_self])

theorem readInteger_digits (nonnil : text.toList ≠ []) (all : ∀ char ∈ text.toList, char.isDigit = true)
    (short : text.toList.length ≤ digitLimit) :
    readInteger text = .integer (digitsValue text.toList) := by
  have range : ∀ char ∈ text.toList, 48 ≤ char.toNat ∧ char.toNat ≤ 57 := by
    intro char member
    have digit := all char member
    rw [Char.isDigit, Bool.and_eq_true, decide_eq_true_eq, decide_eq_true_eq] at digit
    exact digit
  have plain : text.toList.map plainChar = text.toList := by
    refine (map_congr_left fun char member => ?_).trans (map_id _)
    have := range char member
    exact if_pos (by omega)
  have noSpace : ∀ char ∈ text.toList, isSpace char = false := by
    intro char member
    have := range char member
    have other : char ≠ ' ' := by
      rintro rfl
      exact absurd this (by decide)
    simp only [isSpace, other, Bool.or_eq_false_iff, Bool.and_eq_false_iff, decide_eq_false_iff_not]
    simp
    omega
  have whole : plainChars text = text.toList := by
    rw [plainChars, plain, dropWhile_digits noSpace, dropWhile_digits, reverse_reverse]
    exact fun char member => noSpace char (mem_reverse.mp member)
  have unsigned : splitSign text.toList = (false, text.toList) := by
    unfold splitSign
    split
    · next same =>
      have := all '-' (by rw [same]; exact mem_cons_self)
      cases this
    · next same =>
      have := all '+' (by rw [same]; exact mem_cons_self)
      cases this
    · rfl
  have grouped : text.toList.span (fun char => char.isDigit || char = '_') = (text.toList, []) := by
    rw [span_eq_takeWhile_dropWhile]
    have taken : ∀ char ∈ text.toList, (char.isDigit || decide (char = '_')) = true := by
      intro char member
      rw [all char member, Bool.true_or]
    rw [takeWhile_eq_self_iff.mpr taken, dropWhile_eq_nil_iff.mpr taken]
  rw [readInteger, whole, unsigned]
  dsimp only
  rw [grouped]
  rw [dropUnderscores_digits all]
  simp [nonnil, Nat.not_lt.mpr short]

end Decimal

/-! ### Names of snapshots -/

theorem Text.IsSimple.length_le {limit : Nat} (simple : IsSimple text)
    (fits : exceeds limit text = false) : text.length ≤ limit := by
  have unmarked : hasMark text = false := hasMark_eq_false_iff.mpr fun marks => by
    have := simple.ascii mark marks
    rw [toNat_mark] at this
    omega
  have size := utf8ByteSize_of_ascii simple.ascii
  rw [exceeds, nameSize, unmarked, if_neg (by simp), size, Bool.and_self,
    decide_eq_false_iff_not] at fits
  omega

namespace Archive

open Disk (Place IsPlain)

variable {id other : Int}

section

variable (natural : 0 ≤ id)

include natural

theorem toList_nameOf : ∃ count, (nameOf id).toList =
    replicate count '0' ++ Nat.toDigits 10 id.natAbs := by
  rw [nameOf, if_neg (by omega), Text.padded, String.toList_ofList]
  exact ⟨_, rfl⟩

theorem length_nameOf : 6 ≤ (nameOf id).length := by
  rw [nameOf, if_neg (by omega), Text.padded, String.length_ofList, length_append,
    length_replicate]
  omega

theorem digitsValue_nameOf : (Decimal.digitsValue (nameOf id).toList : Int) = id := by
  obtain ⟨count, same⟩ := toList_nameOf natural
  rw [same, Decimal.digitsValue_zeros, Decimal.digitsValue_toDigits]
  omega

theorem nameOf_inj (natural' : 0 ≤ other) (same : nameOf id = nameOf other) :
    id = other := by
  rw [← digitsValue_nameOf natural, same, digitsValue_nameOf natural']

theorem isDigit_of_mem_nameOf (member : char ∈ (nameOf id).toList) :
    char.isDigit = true := by
  obtain ⟨count, same⟩ := toList_nameOf natural
  rw [same, mem_append, mem_replicate] at member
  rcases member with ⟨-, rfl⟩ | digit
  · decide
  · exact Decimal.isDigit_of_mem_toDigits digit

end

theorem isDigit_of_ascii (digit : char.isDigit = true) : Text.isDigit char = true := by
  rw [Char.isDigit, Bool.and_eq_true, decide_eq_true_eq, decide_eq_true_eq] at digit
  have low : 48 ≤ char.toNat := digit.1
  have high : char.toNat ≤ 57 := digit.2
  rw [Text.isDigit, Text.decimalValue?, Option.isSome_map, find?_isSome.mpr, Bool.true_or]
  refine ⟨48, by decide, ?_⟩
  simp only [Bool.and_eq_true, decide_eq_true_eq]
  omega

/-- A name that is not too long is read as the number of the snapshot. -/
theorem toInteger_nameOf (natural : 0 ≤ id)
    (fits : Text.exceeds Disk.nameLimit (nameOf id) = false) :
    (Value.text (nameOf id)).toInteger = .ok id := by
  have some : (nameOf id).toList ≠ [] := by
    intro none
    exact (plain_nameOf id).ne_empty (String.toList_inj.mp none)
  have short : (nameOf id).toList.length ≤ Decimal.digitLimit := by
    have length := (isSimple_nameOf id).length_le fits
    rw [String.length_toList]
    exact length.trans (by decide)
  rw [Value.toInteger, Decimal.readInteger_digits some (fun _ => isDigit_of_mem_nameOf natural) short,
    digitsValue_nameOf natural]

def logName : String := "events.ndjson"

theorem all_isDigit_stagingName (id : Int) : (stagingName id).toList.all Text.isDigit = false := by
  refine all_eq_false.mpr ⟨'.', by simp [stagingName], by decide⟩

end Archive

/-! ### Names in a directory -/

namespace Disk

variable {disk : Disk} {place folder : Place} {path : Path}

theorem mem_namesIn_iff : name ∈ disk.namesIn place ↔ ∃ entry, (place ++ [name], entry) ∈ disk.entries := by
  rw [namesIn, mem_filterMap]
  constructor
  · rintro ⟨⟨spot, entry⟩, member, named⟩
    split at named
    · next under =>
      rw [Bool.and_eq_true, isPrefixOf_iff_prefix, beq_iff_eq] at under
      obtain ⟨⟨more, rfl⟩, length⟩ := under
      obtain ⟨last, rfl⟩ := length_eq_one_iff.mp (show more.length = 1 by simp at length; omega)
      rw [getLast?_concat, Option.some.injEq] at named
      exact ⟨entry, named ▸ member⟩
    · cases named
  · rintro ⟨entry, member⟩
    exact ⟨_, member, by simp⟩

theorem nodup_namesIn (distinct : disk.IsDistinct) (place : Place) : (disk.namesIn place).Nodup := by
  rw [IsDistinct, List.Nodup, pairwise_map] at distinct
  refine List.Pairwise.filterMap _ ?_ distinct
  rintro ⟨spot, entry⟩ ⟨spot', entry'⟩ differ name named name' named' rfl
  rw [Option.ite_none_right_eq_some, Bool.and_eq_true, isPrefixOf_iff_prefix, beq_iff_eq] at named named'
  obtain ⟨⟨⟨more, rfl⟩, length⟩, last⟩ := named
  obtain ⟨⟨⟨more', rfl⟩, length'⟩, last'⟩ := named'
  obtain ⟨one, rfl⟩ := length_eq_one_iff.mp (show more.length = 1 by simp at length; omega)
  obtain ⟨one', rfl⟩ := length_eq_one_iff.mp (show more'.length = 1 by simp at length'; omega)
  rw [getLast?_concat, Option.some.injEq] at last last'
  exact differ (by rw [last, last'])

/-- Names are listed where something stands. -/
theorem mem_namesIn_iff_get? (free : ¬ disk.IsFixed (place ++ [name])) :
    name ∈ disk.namesIn place ↔ disk.get? (place ++ [name]) ≠ none := by
  rw [mem_namesIn_iff]
  constructor
  · rintro ⟨entry, member⟩
    exact get?_ne_none member
  · intro stands
    obtain ⟨entry, found⟩ := Option.ne_none_iff_exists'.mp stands
    rw [get?_of_not_isFixed free, Option.map_eq_some_iff] at found
    obtain ⟨⟨spot, _⟩, found, -⟩ := found
    have same : spot = place ++ [name] := (isPlace_length_iff _ spot).mp (find?_some found :)
    exact ⟨_, same ▸ mem_of_find?_eq_some found⟩

namespace Opens

section

variable (opens : disk.Opens path folder) (plain : IsPlain name) (passable : path.Passable [name])
  (noLink : ∀ target, disk.get? (folder ++ [name]) ≠ some (.link target))

include opens plain passable noLink

/-- A name in an opened directory that can be looked up leads to what stands there. -/
theorem lookUp_name (aim : Aim) :
    disk.lookUp aim (path.down [name]) = .ok (folder ++ [name]) := by
  obtain ⟨left, looked⟩ := opens.exists_lookUp
  rw [looked [name] aim (by simp) (by simp [plain.ne_empty]), passable.short,
    walk_plain plain noLink, walk_entry_plain plain, passable.fits name (by simp)]
  rfl

theorem isDir_name :
    disk.isDir (path.down [name]) = .ok (decide (disk.get? (folder ++ [name]) = some .dir)) := by
  rw [isDir, status, passable.usable, opens.lookUp_name plain passable noLink]
  rfl

end

theorem lookUp_self (opens : disk.Opens path folder) (passable : path.Passable []) :
    disk.lookUp .target path = .ok folder := by
  obtain ⟨left, arrives⟩ := opens.arrive
  have short := passable.short
  rw [show path.down [] = path by simp [Path.down]] at short
  rw [lookUp, short]
  exact walk_target_of_arrive arrives

/-- An opened directory that can be looked up is listed. -/
theorem list_eq (opens : disk.Opens path folder) (tree : disk.IsTree) (passable : path.Passable []) :
    disk.list path = .ok (disk.namesIn folder) := by
  have usable := passable.usable
  rw [show path.down [] = path by simp [Path.down]] at usable
  have located : disk.locate path = .ok folder := by
    rw [locate, opens.lookUp_self passable]
    exact atPath_ok usable
  simp only [list, located, bind, Except.bind, opens.dir tree]
  rfl

end Opens
end Disk

namespace Archive

open Disk (IsPlain)

/-- What may stand in the directory of an archive. -/
inductive IsShelved (name : String) : Prop where
  | snapshot (id : Int) : name = nameOf id → IsShelved name
  | staged (id : Int) : name = stagingName id → IsShelved name
  | log : name = logName → IsShelved name

theorem IsShelved.plain (shelved : IsShelved name) : IsPlain name := by
  rcases shelved with ⟨id, rfl⟩ | ⟨id, rfl⟩ | rfl
  · exact plain_nameOf id
  · exact plain_stagingName id
  · exact ⟨by decide, by decide⟩

theorem IsShelved.child_eq (shelved : IsShelved name) (directory : Path) :
    directory.child name = directory.down [name] := by
  rcases shelved with ⟨id, rfl⟩ | ⟨id, rfl⟩ | rfl
  · exact snapshotPath_eq directory id
  · exact stagingPath_eq directory id
  · rfl

end Archive
end Whittle
