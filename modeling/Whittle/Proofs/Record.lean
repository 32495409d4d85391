import Whittle.Counters
import Whittle.Proofs.Asking
import Whittle.Proofs.Json.Documents
import Whittle.Proofs.Listing
import Whittle.Proofs.Sorting
import Whittle.Record

/-!
Records are read back from what was written of them: all that they say but the doubles in
them, and the order of removed names (`Record.exists_read`).
-/

namespace Whittle

open List

variable {value arranged : Value} {depth : Nat} {record : Record} {files : Listing String}

namespace Value

/-! ### Entries with texts for keys -/

variable {fields : List (String × Value)} {entries : List (Value × Value)} {key : String}

theorem lookup?_eq_some_iff (distinct : (entries.map Prod.fst).Nodup) :
    lookup? key entries = some value ↔ (.text key, value) ∈ entries := by
  induction entries with
  | nil => simp [lookup?]
  | cons entry rest ih =>
    obtain ⟨other, old⟩ := entry
    rw [map_cons, nodup_cons] at distinct
    have later := ih distinct.2
    by_cases same : other = .text key
    · subst same
      rw [lookup?, if_pos rfl, mem_cons, Prod.mk.injEq]
      have notLater : (.text key, value) ∉ rest := fun member =>
        distinct.1 (mem_map.mpr ⟨_, member, rfl⟩)
      simp [notLater, eq_comm]
    · have skips : lookup? key ((other, old) :: rest) = lookup? key rest := by
        cases other with
        | text name =>
          rw [lookup?, if_neg]
          rintro rfl
          exact same rfl
        | _ =>
          rw [lookup?]
          simp
      rw [skips, later, mem_cons, Prod.mk.injEq]
      simp [Ne.symm same]

namespace Json

/-- The entries that are written for fields: of each field the arranged value, and no others. -/
structure Arranges (fields : List (String × Value)) (entries : List (Value × Value)) : Prop where
  keys : (entries.map Prod.fst).Perm (fields.map fun field => .text field.1)
  found : ∀ field ∈ fields, ∃ value, arrange true field.2 = .ok value ∧ (.text field.1, value) ∈ entries
  only : ∀ entry ∈ entries, ∃ field ∈ fields,
    entry.1 = .text field.1 ∧ arrange true field.2 = .ok entry.2

theorem arrangeEntries_record (ordered : Bool) (fields : List (String × Value)) :
    arrangeEntries ordered (fields.map fun field => (.text field.1, field.2)) = fields.map fun field =>
      (.text field.1, (arrange ordered field.2).map fun value => (.text field.1, value)) := by
  induction fields with
  | nil => simp [arrangeEntries]
  | cons field rest ih =>
    rw [map_cons, arrangeEntries, ih, map_cons, arrangeEntry]
    refine congrArg (· :: _) (Prod.ext rfl ?_)
    dsimp only [fieldName, keyText]
    cases arrange ordered field.2 <;> rfl

theorem arranges_of_arrange (done : arrange true (Value.record fields) = .ok arranged) :
    ∃ entries, arranged = .map entries ∧ Arranges fields entries := by
  rw [Value.record, arrange, arrangeEntries_record] at done
  obtain ⟨sorted, is, done⟩ := bind_eq_ok_iff.mp done
  obtain ⟨entries, all, done⟩ := bind_eq_ok_iff.mp done
  cases done
  have perm := Sorting.sort_perm is
  have told : ∀ item ∈ sorted, ∃ field ∈ fields, item.1 = .text field.1 ∧
      item.2 = (arrange true field.2).map fun value => (.text field.1, value) := by
    intro item member
    obtain ⟨field, within, rfl⟩ := mem_map.mp (perm.mem_iff.mp member)
    exact ⟨field, within, rfl, rfl⟩
  have made : ∀ item ∈ sorted, ∀ entry, item.2 = .ok entry → ∃ field ∈ fields,
      item.1 = .text field.1 ∧ entry.1 = .text field.1 ∧ arrange true field.2 = .ok entry.2 := by
    intro item member entry is
    obtain ⟨field, within, key, arranged⟩ := told item member
    rw [arranged] at is
    cases result : arrange true field.2 with
    | error fault =>
      rw [result] at is
      cases is
    | ok value =>
      rw [result] at is
      cases is
      exact ⟨field, within, key, rfl, result⟩
  refine ⟨entries, rfl, ?_, ?_, ?_⟩
  · have keys : entries.map Prod.fst = sorted.map Prod.fst := by
      refine map_of_mapM (fun item member entry is => ?_) all
      obtain ⟨field, -, key, key', -⟩ := made item member entry is
      rw [key, key']
    have same := perm.map Prod.fst
    rw [map_map] at same
    exact keys ▸ same
  · intro field member
    have there := perm.mem_iff.mpr (mem_map_of_mem member)
    obtain ⟨entry, within, is⟩ := exists_of_mapM all _ there
    cases result : arrange true field.2 with
    | error fault =>
      rw [result] at is
      cases is
    | ok value =>
      rw [result] at is
      cases is
      exact ⟨value, rfl, within⟩
  · intro entry member
    obtain ⟨item, within, is⟩ := forall_of_mapM all entry member
    obtain ⟨field, listed, -, key, arranged⟩ := made item within entry is
    exact ⟨field, listed, key, arranged⟩

theorem Arranges.distinct (arranges : Arranges fields entries) (proper : Listing.IsProper fields) :
    (entries.map Prod.fst).Nodup := by
  rw [arranges.keys.nodup_iff]
  rw [Listing.IsProper, Listing.names, List.Nodup, pairwise_map] at proper
  exact pairwise_map.mpr (proper.imp fun apart same => apart (Value.text.inj same))

theorem holdsEntries_of_forall (each : ∀ entry ∈ entries, HoldsEntry entry depth) :
    HoldsEntries entries depth := by
  induction entries with
  | nil => trivial
  | cons entry rest ih =>
    exact ⟨each entry mem_cons_self, ih (forall_mem_cons.mp each).2⟩

theorem echoEntries_eq (entries : List (Value × Value)) :
    echoEntries entries = entries.map fun entry => (entry.1, echo entry.2) := by
  induction entries with
  | nil => rw [echoEntries, map_nil]
  | cons entry rest ih => rw [echoEntries, ih, echoEntry, map_cons]

/-! ### Values that are written and read back -/

def Echoes (value again : Value) : Prop :=
  ∃ arranged, arrange true value = .ok arranged ∧ echo arranged = again

/-- If a value can be written then JSON can hold what is written, and what is read back is such. -/
def Returns (depth : Nat) (value : Value) (such : Value → Prop) : Prop :=
  ∀ arranged, arrange true value = .ok arranged → Holds arranged depth ∧ such (echo arranged)

/-- The entries that are read back for fields: of each field its value, and no others. -/
structure Reads (fields : List (String × Value)) (entries : List (Value × Value)) : Prop where
  distinct : (entries.map Prod.fst).Nodup
  found : ∀ field ∈ fields, ∃ again, (.text field.1, again) ∈ entries ∧ Echoes field.2 again
  only : ∀ entry ∈ entries, ∃ field ∈ fields, entry.1 = .text field.1 ∧ Echoes field.2 entry.2

section Returns

variable {such : Value → Prop}

theorem Returns.echoes {again : Value} (returns : Returns depth value such)
    (echoes : Echoes value again) : such again := by
  obtain ⟨arranged, done, rfl⟩ := echoes
  exact (returns arranged done).2

theorem returns_record (proper : Listing.IsProper fields)
    (each : ∀ field ∈ fields, Text.IsWellFormed field.1 ∧ ∃ such, Returns depth field.2 such) :
    Returns (depth + 1) (Value.record fields)
      fun again => ∃ entries, again = .map entries ∧ Reads fields entries := by
  intro arranged done
  obtain ⟨entries, rfl, arranges⟩ := arranges_of_arrange done
  rw [Holds, echo]
  refine ⟨⟨holdsEntries_of_forall ?_, arranges.distinct proper⟩, _, rfl, ?_, ?_, ?_⟩
  · rintro ⟨key, value⟩ member
    obtain ⟨field, listed, is, arranged⟩ := arranges.only _ member
    obtain ⟨wellFormed, such, returns⟩ := each field listed
    exact ⟨⟨field.1, is, wellFormed⟩, (returns _ arranged).1⟩
  · rw [echoEntries_eq, map_map]
    exact arranges.distinct proper
  · intro field member
    obtain ⟨value, arranged, within⟩ := arranges.found field member
    rw [echoEntries_eq]
    exact ⟨echo value, mem_map.mpr ⟨_, within, rfl⟩, value, arranged, rfl⟩
  · intro entry member
    rw [echoEntries_eq] at member
    obtain ⟨entry, within, rfl⟩ := mem_map.mp member
    obtain ⟨field, listed, is, arranged⟩ := arranges.only _ within
    exact ⟨field, listed, is, entry.2, arranged, rfl⟩

theorem Reads.lookup? (reads : Reads fields entries) (key : String) (member : (key, value) ∈ fields)
    (returns : Returns depth value such) :
    ∃ again, lookup? key entries = some again ∧ such again := by
  obtain ⟨again, within, echoes⟩ := reads.found _ member
  exact ⟨again, (lookup?_eq_some_iff reads.distinct).mpr within, returns.echoes echoes⟩

/-- A value without parts that JSON can hold. -/
def IsScalar : Value → Prop
  | .null | .bool _ | .int _ | .float _ => True
  | .text written => Text.IsWellFormed written
  | _ => False

theorem arrange_scalar (scalar : IsScalar value)
    (done : arrange true value = .ok arranged) : arranged = value ∧ ∀ depth, Holds arranged depth := by
  cases value with
  | int number =>
    rw [arrange] at done
    split at done
    · cases done
    · next fits =>
      cases done
      exact ⟨rfl, fun _ => by rw [Holds]; exact Bool.eq_false_iff.mpr fits⟩
  | null | bool | float =>
    simp only [arrange, Except.ok.injEq] at done
    subst done
    exact ⟨rfl, fun _ => by simp [Holds]⟩
  | text written =>
    simp only [arrange, Except.ok.injEq] at done
    subst done
    exact ⟨rfl, fun _ => by rw [Holds]; exact scalar⟩
  | _ => exact scalar.elim

/-- Values without parts are read back as they are, but for doubles. -/
theorem returns_scalar (depth : Nat) (scalar : IsScalar value) : Returns depth value (· = echo value) := by
  intro arranged done
  obtain ⟨rfl, holds⟩ := arrange_scalar scalar done
  exact ⟨holds depth, rfl⟩

theorem returns_int (depth : Nat) (number : Int) : Returns depth (.int number) (· = .int number) :=
  returns_scalar _ trivial

theorem returns_text {written : String} (depth : Nat) (wellFormed : Text.IsWellFormed written) :
    Returns depth (.text written) (· = .text written) :=
  returns_scalar _ wellFormed

/-- A list of values without parts is read back as it is, if none of them is a double. -/
theorem returns_list {items : List Value}
    (scalars : ∀ item ∈ items, IsScalar item ∧ echo item = item) :
    Returns (depth + 1) (.list items) (· = .list items) := by
  have written : ∀ arranged, arrangeItems true items = .ok arranged →
      HoldsItems arranged depth ∧ echoItems arranged = items := by
    induction items with
    | nil =>
      intro arranged done
      rw [arrangeItems] at done
      cases done
      exact ⟨trivial, rfl⟩
    | cons item rest ih =>
      intro arranged done
      obtain ⟨⟨scalar, same⟩, later⟩ := forall_mem_cons.mp scalars
      rw [arrangeItems] at done
      obtain ⟨first, found, done⟩ := bind_eq_ok_iff.mp done
      obtain ⟨others, all, done⟩ := bind_eq_ok_iff.mp done
      cases done
      obtain ⟨rfl, holds⟩ := arrange_scalar scalar found
      obtain ⟨holds', again⟩ := ih later others all
      exact ⟨⟨holds depth, holds'⟩, by rw [echoItems, same, again]⟩
  intro arranged done
  rw [arrange] at done
  cases all : arrangeItems true items with
  | error fault =>
    rw [all] at done
    cases done
  | ok others =>
    rw [all] at done
    cases done
    rw [Holds, echo]
    exact ⟨(written others all).1, congrArg list (written others all).2⟩

end Returns

end Json

theorem field_of_lookup? (found : lookup? key entries = some value) :
    field (.map entries) key = .ok value := by
  rw [field, found]

theorem field?_of_lookup? (found : lookup? key entries = some value) :
    field? (.map entries) key = .ok (some value) := by
  rw [field?, entriesFor, Except.map, found]

theorem mapM_toInteger (numbers : List Int) :
    (numbers.map int).mapM toInteger = .ok numbers := by
  induction numbers with
  | nil => rfl
  | cons number rest ih =>
    rw [map_cons, mapM_cons_eq_ok_iff]
    exact ⟨number, rest, rfl, ih, rfl⟩

end Value

open Value.Json (Returns arrange echo IsScalar returns_int returns_list returns_record returns_scalar
  returns_text)

namespace Bookmark

/-- A bookmark at no file, or at one whose name is well formed. -/
def IsPlain (bookmark : Bookmark) : Prop :=
  bookmark.path = .null ∨ ∃ name, bookmark.path = .text name ∧ Text.IsWellFormed name

def positionValue (position : Option (List Int)) : Value :=
  match position with
  | some position => .list (position.map .int)
  | none => .null

theorem returns_positionValue (position : Option (List Int)) (depth : Nat) :
    Returns (depth + 1) (positionValue position) (· = positionValue position) := by
  cases position with
  | none => exact returns_scalar _ trivial
  | some numbers =>
    refine returns_list fun item member => ?_
    obtain ⟨number, -, rfl⟩ := mem_map.mp member
    exact ⟨trivial, rfl⟩

theorem IsPlain.returns {bookmark : Bookmark} (plain : bookmark.IsPlain) (depth : Nat) :
    Returns (depth + 2) bookmark.toValue fun again =>
      again.isGiven = true ∧ ofValue again = .ok { bookmark with restored := true } := by
  have path : Returns (depth + 1) bookmark.path (· = bookmark.path) := by
    rcases plain with none | ⟨name, is, wellFormed⟩
    · rw [none]
      exact returns_scalar _ trivial
    · rw [is]
      exact returns_text _ wellFormed
  have position := returns_positionValue bookmark.position depth
  have each : ∀ field ∈ [("pass_index", .int bookmark.passIndex), ("path", bookmark.path),
      ("position", positionValue bookmark.position)],
      Text.IsWellFormed field.1 ∧ ∃ such, Returns (depth + 1) field.2 such := by
    simp only [forall_mem_cons]
    refine ⟨⟨Text.isWellFormed_of_unmarked (by decide), _, returns_int _ _⟩,
      ⟨Text.isWellFormed_of_unmarked (by decide), _, path⟩,
      ⟨Text.isWellFormed_of_unmarked (by decide), _, position⟩, fun _ none => by cases none⟩
  intro arranged done
  obtain ⟨holds, entries, is, reads⟩ :=
    returns_record (by simp [Listing.IsProper, Listing.names]) each arranged done
  obtain ⟨_, found, rfl⟩ := reads.lookup? "pass_index" (by simp) (returns_int depth bookmark.passIndex)
  obtain ⟨_, found', rfl⟩ := reads.lookup? "path" (by simp) path
  obtain ⟨_, found'', rfl⟩ := reads.lookup? "position" (by simp) position
  rw [is]
  refine ⟨holds, ?_, ?_⟩
  · cases entries with
    | nil => cases found
    | cons => rfl
  · rw [ofValue, Value.field?_of_lookup? found, Value.field?_of_lookup? found',
      Value.field?_of_lookup? found'']
    cases is : bookmark.position with
    | none => rfl
    | some numbers =>
      simp only [bind, Except.bind, Option.getD_some, Value.toInteger, positionValue, Value.isNull,
        Value.items, Value.items?, Value.mapM_toInteger, pure, Except.pure]
      rfl

end Bookmark

namespace Record

/-- A record that can be read back: its texts are well formed, each file is there once, and so is each
counter, which is a number. -/
structure IsPlain (record : Record) : Prop where
  root : Text.IsWellFormed record.root
  bookmark : record.bookmark.IsPlain
  files : record.files.IsProper
  names : ∀ file ∈ record.files, Text.IsWellFormed file.1 ∧ Text.IsWellFormed file.2
  removed : ∀ value ∈ record.removed, ∃ name, value = .text name ∧ Text.IsWellFormed name
  counters : ∃ tally : Listing Value, Value.record tally = .map record.counters ∧
    tally.IsProper ∧ ∀ field ∈ tally, Text.IsWellFormed field.1 ∧
      ((∃ number, field.2 = .int number) ∨ ∃ number, field.2 = .float number)

/-- A record says what another one does, but for the doubles in it and the order of removed names;
its bookmark is a restored one. -/
structure Repeats (again record : Record) : Prop where
  id : again.id = record.id
  root : again.root = record.root
  bookmark : again.bookmark = { record.bookmark with restored := true }
  size : again.size = record.size
  files : ∀ name, again.files.get? name = record.files.get? name
  proper : again.files.IsProper
  removed : again.removed.Perm record.removed
  counters : ∀ key value, Value.lookup? key record.counters = some value →
    Value.lookup? key again.counters = some (echo value)

def fields (record : Record) (removed : List Value) : Listing Value := [
  ("id", .int record.id),
  ("timestamp", .float record.timestamp),
  ("root", .text record.root),
  ("cursor", record.bookmark.toValue),
  ("size", .int record.size),
  ("files", Value.record ((sortFiles record.files).map fun file => (file.1, .text file.2))),
  ("removed", .list removed),
  ("counters", .map record.counters)]

theorem toValue_eq_ok_iff : record.toValue = .ok value ↔
      ∃ removed, Value.sort record.removed = .ok removed ∧ value = Value.record (record.fields removed) := by
  rw [toValue, bind_eq_ok_iff]
  constructor
  · rintro ⟨removed, sorted, same⟩
    cases same
    exact ⟨removed, sorted, rfl⟩
  · rintro ⟨removed, sorted, rfl⟩
    exact ⟨removed, sorted, rfl⟩

theorem isProper_fields (record : Record) (removed : List Value) :
    (record.fields removed).IsProper := by
  simp [Listing.IsProper, Listing.names, fields]

/-! ### Files -/

section Files

def fileFields (files : Listing String) : Listing Value :=
  (sortFiles files).map fun file => (file.1, .text file.2)

theorem isProper_fileFields (proper : files.IsProper) :
    (fileFields files).IsProper := by
  rw [Listing.IsProper, fileFields, Listing.names_map]
  exact ((sortBy_perm files).map Prod.fst).nodup_iff.mpr proper

theorem mem_fileFields {field : String × Value} :
    field ∈ fileFields files ↔ ∃ file ∈ files, field = (file.1, .text file.2) := by
  rw [fileFields, mem_map]
  constructor
  · rintro ⟨file, member, rfl⟩
    exact ⟨file, mem_sortBy.mp member, rfl⟩
  · rintro ⟨file, member, rfl⟩
    exact ⟨file, mem_sortBy.mpr member, rfl⟩

theorem get?_eq_some_iff_mem {α : Type} {listing : Listing α} (proper : listing.IsProper)
    {name : String} {thing : α} : listing.get? name = some thing ↔ (name, thing) ∈ listing :=
  ⟨Listing.mem_of_get?, Listing.get?_of_mem proper⟩

theorem IsPlain.returns_files (plain : record.IsPlain) (depth : Nat) :
    Returns (depth + 1) (Value.record (fileFields record.files)) fun again =>
      ∃ entries, again = .map entries ∧ ∀ name,
        (Listing.ofList (entries.map fun entry => (entry.1.shown, entry.2.shown))).get? name =
          record.files.get? name := by
  have digests : ∀ file ∈ record.files, Returns depth (.text file.2) (· = .text file.2) :=
    fun file listed => returns_text _ (plain.names file listed).2
  intro arranged done
  obtain ⟨holds, entries, is, reads⟩ := returns_record (isProper_fileFields plain.files)
    (fun field member => by
      obtain ⟨file, listed, rfl⟩ := mem_fileFields.mp member
      exact ⟨(plain.names file listed).1, _, digests file listed⟩) arranged done
  have own : ∀ entry ∈ entries, ∃ file ∈ record.files, entry = (.text file.1, .text file.2) := by
    rintro ⟨key, value⟩ member
    obtain ⟨field, within, is, echoes⟩ := reads.only _ member
    obtain ⟨file, listed, rfl⟩ := mem_fileFields.mp within
    exact ⟨file, listed, Prod.ext is ((digests file listed).echoes echoes)⟩
  refine ⟨holds, entries, is, fun name => ?_⟩
  have distinct := reads.distinct
  have proper : Listing.IsProper
      (entries.map fun entry => (entry.1.shown, entry.2.shown)).reverse := by
    refine ((reverse_perm _).map Prod.fst).nodup_iff.mpr ?_
    rw [map_map]
    rw [List.Nodup, pairwise_map] at distinct ⊢
    refine distinct.imp_of_mem fun {first second} one other apart same => apart ?_
    obtain ⟨file, -, rfl⟩ := own first one
    obtain ⟨file', -, rfl⟩ := own second other
    exact congrArg Value.text same
  rw [Listing.get?_ofList]
  refine Option.ext fun digest => ?_
  rw [get?_eq_some_iff_mem proper, get?_eq_some_iff_mem plain.files, mem_reverse, mem_map]
  constructor
  · rintro ⟨entry, member, same⟩
    obtain ⟨file, listed, rfl⟩ := own entry member
    cases same
    exact listed
  · intro listed
    obtain ⟨again, within, echoes⟩ := reads.found _ (mem_fileFields.mpr ⟨_, listed, rfl⟩)
    cases (digests _ listed).echoes echoes
    exact ⟨_, within, rfl⟩

end Files

/-! ### Counters and whole records -/

theorem IsPlain.returns_counters (plain : record.IsPlain) (depth : Nat) :
    Returns (depth + 1) (.map record.counters) fun again =>
      ∃ entries, again = .map entries ∧ ∀ key value,
        Value.lookup? key record.counters = some value → Value.lookup? key entries = some (echo value) := by
  obtain ⟨tally, is, proper, numbers⟩ := plain.counters
  have each : ∀ field ∈ tally, Returns depth field.2 (· = echo field.2) := by
    intro field member
    rcases (numbers field member).2 with ⟨number, is⟩ | ⟨number, is⟩ <;> rw [is] <;>
      exact returns_scalar _ trivial
  intro arranged done
  rw [← is] at done
  obtain ⟨holds, entries, same, reads⟩ := returns_record proper
    (fun field member => ⟨(numbers field member).1, _, each field member⟩) arranged done
  refine ⟨holds, entries, same, fun key value found => ?_⟩
  have counters : record.counters = tally.map fun field => (.text field.1, field.2) :=
    Value.map.inj is.symm
  have distinct : (record.counters.map Prod.fst).Nodup := by
    rw [counters, map_map]
    rw [Listing.IsProper, Listing.names, List.Nodup, pairwise_map] at proper
    exact pairwise_map.mpr (proper.imp fun apart same => apart (Value.text.inj same))
  rw [Value.lookup?_eq_some_iff distinct, counters] at found
  obtain ⟨field, member, same⟩ := mem_map.mp found
  cases same
  obtain ⟨_, found, rfl⟩ := reads.lookup? _ member (each field member)
  exact found

/-- A record is read back from its written form. -/
theorem IsPlain.returns {removed : List Value} (plain : record.IsPlain)
    (sorted : Value.sort record.removed = .ok removed) :
    Returns Value.Json.depthLimit (Value.record (record.fields removed)) fun found =>
      ∃ again, ofValue found = .ok again ∧ again.Repeats record := by
  have time : Returns 988 (.float record.timestamp) (· = echo (.float record.timestamp)) :=
    returns_scalar _ trivial
  have root : Returns 988 (.text record.root) (· = .text record.root) := returns_text _ plain.root
  have cursor := plain.bookmark.returns 986
  have files := plain.returns_files 987
  have counters := plain.returns_counters 987
  have names : Returns 988 (.list removed) (· = .list removed) := by
    refine returns_list fun item member => ?_
    obtain ⟨name, rfl, wellFormed⟩ := plain.removed item ((Sorting.sort_perm sorted).mem_iff.mp member)
    exact ⟨wellFormed, rfl⟩
  have each : ∀ field ∈ record.fields removed,
      Text.IsWellFormed field.1 ∧ ∃ such, Returns 988 field.2 such := by
    intro field member
    constructor
    · refine Text.isWellFormed_of_unmarked ?_
      have keys : ∀ key ∈ (record.fields removed).map Prod.fst, Text.mark ∉ key.toList := by
        simp only [fields, map_cons, map_nil]
        decide
      exact keys field.1 (mem_map_of_mem member)
    · simp only [fields, mem_cons, not_mem_nil, or_false] at member
      rcases member with rfl | rfl | rfl | rfl | rfl | rfl | rfl | rfl
      · exact ⟨_, returns_int _ _⟩
      · exact ⟨_, time⟩
      · exact ⟨_, root⟩
      · exact ⟨_, cursor⟩
      · exact ⟨_, returns_int _ _⟩
      · exact ⟨_, files⟩
      · exact ⟨_, names⟩
      · exact ⟨_, counters⟩
  intro arranged done
  obtain ⟨holds, entries, is, reads⟩ :=
    returns_record (isProper_fields record removed) each arranged done
  obtain ⟨_, foundId, rfl⟩ := reads.lookup? "id" (by simp [fields]) (returns_int 988 record.id)
  obtain ⟨_, foundTime, rfl⟩ := reads.lookup? "timestamp" (by simp [fields]) time
  obtain ⟨_, foundRoot, rfl⟩ := reads.lookup? "root" (by simp [fields]) root
  obtain ⟨_, foundCursor, given, bookmark⟩ := reads.lookup? "cursor" (by simp [fields]) cursor
  obtain ⟨_, foundSize, rfl⟩ := reads.lookup? "size" (by simp [fields]) (returns_int 988 record.size)
  obtain ⟨_, foundFiles, fileEntries, rfl, files⟩ :=
    reads.lookup? "files" (by simp [fields, fileFields]) files
  obtain ⟨_, foundNames, rfl⟩ := reads.lookup? "removed" (by simp [fields]) names
  obtain ⟨_, foundTally, tally, rfl, counters⟩ :=
    reads.lookup? "counters" (by simp [fields]) counters
  refine ⟨holds, ?_⟩
  beta_reduce
  rw [is, ofValue, Value.field_of_lookup? foundId, Value.field_of_lookup? foundTime,
    Value.field_of_lookup? foundRoot, Value.field?_of_lookup? foundCursor,
    Value.field_of_lookup? foundSize, Value.field_of_lookup? foundFiles,
    Value.field?_of_lookup? foundNames, Value.field?_of_lookup? foundTally]
  simp only [bind, Except.bind, Value.toInteger, Value.toDecimal, Option.getD_some, given, if_true,
    bookmark, Value.entriesFor, Value.items, Value.items?, Value.toEntries]
  refine ⟨_, rfl, rfl, rfl, rfl, rfl, files, Listing.isProper_ofList _, ?_, counters⟩
  exact Sorting.sort_perm sorted

theorem IsPlain.exists_read {text : String} (plain : record.IsPlain)
    (valued : record.toValue = .ok value) (written : Value.Json.writeSpread value = .ok text) :
    Text.Utf8.read (Bytes.ofText text) = .ok text ∧ Text.unifyLines text = text ∧
      ∃ found again, Value.Json.read text = .ok found ∧ ofValue found = .ok again ∧
        again.Repeats record := by
  obtain ⟨removed, sorted, rfl⟩ := toValue_eq_ok_iff.mp valued
  rw [Value.Json.writeSpread] at written
  cases done : arrange true (Value.record (record.fields removed)) with
  | error fault =>
    rw [done] at written
    cases written
  | ok arranged =>
    rw [done] at written
    cases written
    obtain ⟨holds, again, found, repeats⟩ := plain.returns sorted arranged done
    obtain ⟨bytes, lines⟩ := Value.Json.read_ofText_spread holds
    exact ⟨bytes, lines, _, again, Value.Json.read_spread holds, found, repeats⟩

end Record

namespace Counters

/-- Counters that count the same, whatever time they tell. -/
structure Agrees (again counters : Counters) : Prop where
  accepted : again.accepted = counters.accepted
  rejected : again.rejected = counters.rejected
  inconclusive : again.inconclusive = counters.inconclusive
  parseFailures : again.parseFailures = counters.parseFailures
  initialSize : again.initialSize = counters.initialSize

def entries (counters : Counters) (now : Float) : List (Value × Value) := [
  (.text "accepted", .int counters.accepted),
  (.text "rejected", .int counters.rejected),
  (.text "inconclusive", .int counters.inconclusive),
  (.text "parse_failures", .int counters.parseFailures),
  (.text "initial_size", .int counters.initialSize),
  (.text "elapsed", writtenTime (counters.elapsed now))]

theorem toValue_eq (counters : Counters) (now : Float) :
    counters.toValue now = .map (counters.entries now) :=
  rfl

theorem exists_tally (counters : Counters) (now : Float) : ∃ tally : Listing Value,
    Value.record tally = .map (counters.entries now) ∧ tally.IsProper ∧
      ∀ field ∈ tally, Text.IsWellFormed field.1 ∧
        ((∃ number, field.2 = .int number) ∨ ∃ number, field.2 = .float number) := by
  refine ⟨_, counters.toValue_eq now, by simp [Listing.IsProper, Listing.names], ?_⟩
  have keys : ∀ key ∈ ["accepted", "rejected", "inconclusive", "parse_failures", "initial_size",
      "elapsed"], Text.IsWellFormed key := by
    intro key member
    refine Text.isWellFormed_of_unmarked ?_
    revert key
    decide
  intro field member
  simp only [mem_cons, not_mem_nil, or_false] at member
  rcases member with rfl | rfl | rfl | rfl | rfl | rfl
  · exact ⟨keys _ (by simp), .inl ⟨_, rfl⟩⟩
  · exact ⟨keys _ (by simp), .inl ⟨_, rfl⟩⟩
  · exact ⟨keys _ (by simp), .inl ⟨_, rfl⟩⟩
  · exact ⟨keys _ (by simp), .inl ⟨_, rfl⟩⟩
  · exact ⟨keys _ (by simp), .inl ⟨_, rfl⟩⟩
  · exact ⟨keys _ (by simp), .inr ⟨_, rfl⟩⟩

theorem exists_ofValue {counters : Counters} {now : Float} {again : List (Value × Value)}
    (repeats : ∀ key value, Value.lookup? key (counters.entries now) = some value →
      Value.lookup? key again = some (echo value)) (later : Float) :
    ∃ restored, ofValue (.map again) later = .ok restored ∧ restored.Agrees counters := by
  have integer : ∀ key number, Value.lookup? key (counters.entries now) = some (.int number) →
      readField (.map again) key = .ok number := by
    intro key number found
    have there := repeats key _ found
    rw [readField, Value.field?_of_lookup? there]
    rfl
  have elapsed := repeats "elapsed" _ rfl
  rw [writtenTime, echo] at elapsed
  rw [ofValue, integer "accepted" _ rfl, integer "rejected" _ rfl, integer "inconclusive" _ rfl,
    integer "parse_failures" _ rfl, integer "initial_size" _ rfl, Value.field?_of_lookup? elapsed]
  exact ⟨_, rfl, rfl, rfl, rfl, rfl, rfl⟩

end Counters
end Whittle
