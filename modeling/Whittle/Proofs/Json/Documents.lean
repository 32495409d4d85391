import Whittle.Proofs.Json.Values

/-!
Documents: a value that is spread over lines is written down. What is written is ASCII, so that the value
is read back from its text and from its bytes.
-/

namespace Whittle.Value.Json

open List

variable {value : Value} {depth level : Nat} {items : List Value}
  {entries : List (Value × Value)}

/-! ### Values over lines -/

theorem HoldsItems.all (holds : HoldsItems items depth) : ∀ item ∈ items, Holds item depth := by
  induction items with
  | nil => exact fun _ member => by cases member
  | cons item items ih => exact forall_mem_cons.mpr ⟨holds.1, ih holds.2⟩

theorem HoldsEntries.all (holds : HoldsEntries entries depth) :
    ∀ entry ∈ entries, (∃ name, entry.1 = .text name ∧ Text.IsWellFormed name) ∧ Holds entry.2 depth := by
  induction entries with
  | nil => exact fun _ member => by cases member
  | cons entry entries ih =>
    obtain ⟨key, value⟩ := entry
    exact forall_mem_cons.mpr ⟨holds.1, ih holds.2⟩

theorem isGap_newLine (level : Nat) : IsGap (newLine level).toList := by
  intro char member
  rw [newLine, String.toList_ofList, mem_cons, mem_replicate] at member
  rcases member with rfl | ⟨-, rfl⟩
  · exact ⟨rfl, .inl rfl⟩
  · exact ⟨rfl, .inr (by decide)⟩

def spreadGaps (level : Nat) : Gaps :=
  ⟨(newLine (level + 1)).toList, (newLine (level + 1)).toList, [' '], (newLine level).toList,
    isGap_newLine _, isGap_newLine _, by simp [IsGap, IsWritten, isSpace], isGap_newLine _⟩

theorem toList_spread_list (level : Nat) (item : Value) (items : List Value) :
    (spread level (.list (item :: items))).toList = (spreadGaps level).enclose '['
      ((item :: items).map fun item => (spread (level + 1) item).toList) ']' := by
  have all : ∀ items, (spreadItems (level + 1) items).map String.toList =
      items.map fun item => (spread (level + 1) item).toList := by
    intro items
    induction items with
    | nil => rfl
    | cons item items ih => rw [spreadItems, map_cons, ih, map_cons]
  simp [spread, all, spreadGaps, Gaps.enclose, Gaps.join]

theorem toList_spread_map (level : Nat) (entry : Value × Value) (entries : List (Value × Value)) :
    (spread level (.map (entry :: entries))).toList = (spreadGaps level).enclose '\x7b'
      ((entry :: entries).map ((spreadGaps level).field fun value =>
        (spread (level + 1) value).toList)) '\x7d' := by
  have all : ∀ entries, (spreadEntries (level + 1) entries).map String.toList =
      entries.map ((spreadGaps level).field fun value => (spread (level + 1) value).toList) := by
    intro entries
    induction entries with
    | nil => rfl
    | cons entry entries ih =>
      obtain ⟨key, value⟩ := entry
      rw [spreadEntries, map_cons, ih, map_cons]
      simp [spreadEntry, Gaps.field, spreadGaps]
  simp [spread, all, Gaps.enclose, Gaps.join]
  simp [spreadGaps]

theorem writes_spread (holds : Holds value depth) (level : Nat) :
    Writes depth value (spread level value).toList := by
  induction depth generalizing value level with
  | zero =>
    cases value with
    | list items => simp [Holds] at holds
    | map entries => simp [Holds] at holds
    | _ => exact writes_atom holds (by simp) (by simp)
  | succ depth ih =>
    cases value with
    | list items =>
      cases items with
      | nil =>
        rw [spread]
        exact writes_empty.1
      | cons item items =>
        rw [toList_spread_list]
        exact writes_list _ fun item member => ih (holds.all item member) (level + 1)
    | map entries =>
      cases entries with
      | nil =>
        rw [spread]
        exact writes_empty.2
      | cons entry entries =>
        rw [toList_spread_map]
        exact writes_map _ (fun entry member => ⟨(holds.1.all entry member).1,
          ih (holds.1.all entry member).2 (level + 1)⟩) holds.2
    | _ => exact writes_atom holds (by simp) (by simp)

/-! ### Documents -/

theorem Writes.readDocument {chars blanks : List Char} (writes : Writes depthLimit value chars)
    (gap : IsGap blanks) : readDocument depthLimit (chars ++ blanks) = .ok (echo value) := by
  have begins : Cursor.skipSpace ⟨chars ++ blanks, 0⟩ = ⟨chars ++ blanks, 0⟩ :=
    skipSpace_append isGap_nil (writes.leads.starts blanks)
  have noMark : (chars ++ blanks).head? ≠ some (Char.ofNat 0xfeff) := by
    obtain ⟨first, more, rfl, -⟩ := writes.leads
    rintro ⟨⟩
    rcases writes.written _ mem_cons_self with same | small
    · revert same
      decide
    · revert small
      decide
  have none : Closes [] := fun _ none => by cases none
  obtain ⟨after, found⟩ := writes.reads (2 * (chars ++ blanks).length + 2) 0 blanks
    (by simp only [length_append]; omega) (append_nil blanks ▸ gap.closes none)
  have starts : Starts [] := fun _ none => by cases none
  have ends : Cursor.skipSpace ⟨blanks ++ [], after⟩ = _ := skipSpace_append gap starts
  rw [append_nil] at ends
  rw [Json.readDocument, if_neg noMark, begins]
  simp only [found, ends, bind, Except.bind, pure, Except.pure]
  rfl

theorem read_of_written {text : String} (written : ∀ char ∈ text.toList, IsWritten char) :
    Text.Utf8.read (Bytes.ofText text) = .ok text ∧ Text.unifyLines text = text := by
  constructor
  · refine Text.Utf8.read_ofText_of_ascii fun char member => ?_
    rcases written char member with rfl | small
    · decide
    · omega
  · refine Text.unifyLines_of_noReturn fun member => ?_
    rcases written '\r' member with same | small
    · revert same
      decide
    · revert small
      decide

theorem read_spread (holds : Holds value depthLimit) : read (spread 0 value) = .ok (echo value) := by
  have found := (writes_spread holds 0).readDocument isGap_nil
  rw [append_nil] at found
  rw [read, readWithin, found]
  rfl

theorem read_ofText_spread (holds : Holds value depthLimit) :
    Text.Utf8.read (Bytes.ofText (spread 0 value)) = .ok (spread 0 value) ∧
      Text.unifyLines (spread 0 value) = spread 0 value :=
  read_of_written (writes_spread holds 0).written

end Whittle.Value.Json
