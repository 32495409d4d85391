import Mathlib.Data.List.Chain
import Whittle.Disk.Lookup
import Whittle.Text.Newline
import Whittle.Text.Utf8

/-!
What the characters of a text hold. A text of whole code points is told by them
(`Text.IsWellFormed`), and one of ASCII characters is read back from its bytes. A stretch of
ASCII characters in a text can be replaced by a shorter one without the text becoming
unusable as a path or too long for one.
-/

namespace Whittle

open List

variable {text : String} {chars : List Char} {named : Bool} {points : List Nat}

namespace Text

theorem hasMark_eq_false_iff : hasMark text = false ↔ mark ∉ text.toList := by
  rw [hasMark, any_eq_false]
  constructor
  · intro none member
    exact none mark member (by simp)
  · intro unmarked char member marked
    exact unmarked (of_decide_eq_true marked ▸ member)

theorem codesOf_of_unmarked (unmarked : mark ∉ chars) : codesOf chars = chars.map Char.toNat := by
  induction chars with
  | nil => rfl
  | cons char rest ih =>
    rw [mem_cons, not_or] at unmarked
    rw [codesOf_cons rest (Ne.symm unmarked.1), ih unmarked.2, map_cons]

theorem codes_eq_codesOf (text : String) : codes text = codesOf text.toList := by
  rw [codes]
  split
  · rfl
  · next none =>
    have none := hasMark_eq_false_iff.mp (Bool.eq_false_iff.mpr none)
    rw [codesOf_of_unmarked none]

theorem toNat_lt (char : Char) : char.toNat < 0x110000 := by
  have valid := char.valid
  change char.val.toNat < _
  omega

theorem not_isHalf_toNat (char : Char) : isHalf char.toNat = false := by
  have valid := char.valid
  rw [Bool.eq_false_iff]
  simp only [isHalf, isHigh, isLow, ne_eq, Bool.or_eq_true, Bool.and_eq_true, decide_eq_true_eq]
  change ¬ (_ ≤ char.val.toNat ∧ char.val.toNat < _ ∨ _ ≤ char.val.toNat ∧ char.val.toNat < _)
  omega

theorem ofCode_toNat {char : Char} (own : char ≠ mark) : ofCode char.toNat = [char] := by
  have apart : char.toNat ≠ mark.toNat := fun same => own (Char.toNat_inj.mp same)
  rw [ofCode, not_isHalf_toNat, if_neg (by simp), if_neg apart, Char.ofNat_toNat]

theorem lt_of_mem_codesOf {code : Nat} (member : code ∈ codesOf chars) : code < 0x110000 := by
  fun_induction codesOf chars with
  | case1 second rest ih =>
    rcases mem_cons.mp member with rfl | later
    · rw [markedCode]
      split
      · decide
      · exact Nat.lt_of_le_of_lt (Nat.sub_le _ _) (toNat_lt second)
    · exact ih later
  | case2 first second rest own ih =>
    rcases mem_cons.mp member with rfl | later
    · exact toNat_lt first
    · exact ih later
  | case3 chars short =>
    obtain ⟨char, -, rfl⟩ := mem_map.mp member
    exact toNat_lt char

/-! ### Texts of whole code points -/

/-- The characters of a text hold code points, and no two halves that make a pair stand beside each
other. -/
structure IsWellFormed (text : String) : Prop where
  whole : (codes text).flatMap ofCode = text.toList
  apart : (codes text).IsChain fun first second => ¬ (isHigh first = true ∧ isLow second = true)

instance (text : String) : Decidable (IsWellFormed text) :=
  decidable_of_iff _ ⟨fun both => ⟨both.1, both.2⟩, fun is => And.intro is.whole is.apart⟩

theorem isWellFormed_of_unmarked (unmarked : mark ∉ text.toList) : IsWellFormed text := by
  have points : codes text = text.toList.map Char.toNat := by
    rw [codes_eq_codesOf, codesOf_of_unmarked unmarked]
  constructor
  · rw [points, flatMap_map]
    have own : text.toList.flatMap (fun char => ofCode char.toNat) = text.toList.flatMap ([·]) :=
      flatMap_congr fun char member => ofCode_toNat fun same => unmarked (same ▸ member)
    rw [own, flatMap_singleton']
  · rw [points]
    refine List.Pairwise.isChain (pairwise_map.mpr (pairwise_of_forall fun first _ => ?_))
    rintro ⟨high, -⟩
    have := not_isHalf_toNat first
    rw [isHalf, high] at this
    cases this

/-! ### ASCII -/

theorem toList_loop (bytes : ByteArray) (index : Nat) (read : List UInt8) :
    ByteArray.toList.loop bytes index read = read.reverse ++ bytes.data.toList.drop index := by
  fun_induction ByteArray.toList.loop bytes index read with
  | case1 index read inside ih =>
    rw [ih, drop_eq_getElem_cons inside]
    have there : bytes.data[index]?.getD default = bytes.data[index] := by
      rw [Array.getElem?_eq_getElem inside, Option.getD_some]
    simp [ByteArray.get!, Array.getElem!_eq_getD, there]
  | case2 index read outside =>
    have outside : bytes.data.toList.length ≤ index := Nat.le_of_not_lt outside
    rw [drop_of_length_le outside, append_nil]

theorem ofText_of_ascii (ascii : ∀ char ∈ text.toList, char.toNat < 128) :
    Bytes.ofText text = text.toList.map fun char => UInt8.ofNat char.toNat := by
  have encoded : text.toByteArray.data.toList = text.toList.flatMap String.utf8EncodeChar := by
    rw [← String.ofList_toList (s := text), String.toByteArray_ofList, utf8Encode,
      data_toByteArray, String.toList_ofList]
  rw [Bytes.ofText, String.toUTF8, ByteArray.toList, toList_loop, encoded]
  have each : text.toList.flatMap String.utf8EncodeChar =
      text.toList.flatMap fun char => [UInt8.ofNat char.toNat] := by
    refine flatMap_congr fun char member => ?_
    have small : char.val.toNat ≤ 127 := Nat.le_of_lt_succ (ascii char member)
    exact if_pos small
  rw [each, ← map_eq_flatMap]
  rfl

namespace Utf8

theorem pieces_of_ascii (ascii : ∀ char ∈ chars, char.toNat < 128) :
    pieces (chars.map fun char => UInt8.ofNat char.toNat) = chars.map (.char · 0) := by
  induction chars with
  | nil => rw [map_nil, pieces, map_nil]
  | cons char rest ih =>
    have small := ascii char mem_cons_self
    have code : (UInt8.ofNat char.toNat).toNat = char.toNat := by
      rw [UInt8.toNat_ofNat', Nat.mod_eq_of_lt (by omega)]
    have piece : ∀ more, next (UInt8.ofNat char.toNat) more = .char char 0 := by
      intro more
      simp only [next, code, small, if_true, Char.ofNat_toNat]
    rw [map_cons, pieces, piece, map_cons]
    exact congrArg _ (ih (forall_mem_cons.mp ascii).2)

theorem readPieces_of_chars (bytes : Bytes) (offset : Nat) (chars : List Char) :
    readPieces bytes offset (chars.map (.char · 0)) = .ok chars := by
  induction chars generalizing offset with
  | nil => rfl
  | cons char rest ih => rw [map_cons, readPieces, ih]; rfl

theorem read_ofText_of_ascii (ascii : ∀ char ∈ text.toList, char.toNat < 128) :
    read (Bytes.ofText text) = .ok text := by
  rw [read, ofText_of_ascii ascii, pieces_of_ascii ascii, readPieces_of_chars]
  exact congrArg _ (String.ofList_toList)

end Utf8

theorem unifyLines_of_noReturn (noReturn : '\r' ∉ text.toList) : unifyLines text = text := by
  suffices same : ∀ chars : List Char, '\r' ∉ chars → unifyChars chars = chars by
    rw [unifyLines, same _ noReturn, String.ofList_toList]
  intro chars
  fun_induction unifyChars chars with
  | case1 => exact fun _ => rfl
  | case2 rest ih => exact fun none => absurd mem_cons_self none
  | case3 rest _ ih => exact fun none => absurd mem_cons_self none
  | case4 char rest _ _ ih =>
    exact fun none => congrArg _ (ih fun later => none (mem_cons_of_mem _ later))

/-! ### Stretches of a text -/

/-- A stretch of a text that is nothing special: ASCII characters other than that of number 0. -/
structure IsSimple (text : String) : Prop where
  ascii : ∀ char ∈ text.toList, char.toNat < 128
  closed : Char.ofNat 0 ∉ text.toList
  some : text ≠ ""

variable {before after old new name : String}

/-- What stands before a stretch either ends with a code point or begins one. -/
theorem codesOf_append (chars : List Char) :
    (∃ points, ∀ rest, codesOf (chars ++ rest) = points ++ codesOf rest) ∨
      ∃ points, ∀ char rest,
        codesOf (chars ++ char :: rest) = points ++ markedCode char :: codesOf rest := by
  fun_induction codesOf chars with
  | case1 second rest ih =>
    rcases ih with ⟨points, whole⟩ | ⟨points, open'⟩
    · exact .inl ⟨markedCode second :: points, fun more => by simp [codesOf, whole]⟩
    · exact .inr ⟨markedCode second :: points, fun char more => by simp [codesOf, open']⟩
  | case2 first second rest own ih =>
    rcases ih with ⟨points, whole⟩ | ⟨points, open'⟩
    · refine .inl ⟨first.toNat :: points, fun more => ?_⟩
      rw [cons_append, codesOf_cons _ own, whole, cons_append]
    · refine .inr ⟨first.toNat :: points, fun char more => ?_⟩
      rw [cons_append, codesOf_cons _ own, open', cons_append]
  | case3 chars short =>
    rcases chars with _ | ⟨char, _ | ⟨next, rest⟩⟩
    · exact .inl ⟨[], fun _ => rfl⟩
    · by_cases marks : char = mark
      · exact .inr ⟨[], fun next rest => by simp [codesOf, marks]⟩
      · exact .inl ⟨[char.toNat], fun rest => codesOf_cons rest marks⟩
    · exact absurd rfl (short char next rest)

/-- The code points around a simple stretch do not depend on it, and it holds as many as it has
characters. -/
theorem exists_codes_around (before after : String) :
    ∃ points, ∀ name, IsSimple name → ∃ own : List Nat, own.length = name.length ∧
      (∀ code ∈ own, code < 128) ∧
      codes (before ++ name ++ after) = points ++ own ++ codes after := by
  have held : ∀ {name : String}, IsSimple name → ∀ rest,
      codesOf (name.toList ++ rest) = name.toList.map Char.toNat ++ codesOf rest := by
    intro name simple rest
    have unmarked : mark ∉ name.toList := fun marks => by
      have := simple.ascii mark marks
      rw [toNat_mark] at this
      omega
    revert unmarked
    induction name.toList with
    | nil => exact fun _ => rfl
    | cons char more ih =>
      intro unmarked
      rw [mem_cons, not_or] at unmarked
      rw [cons_append, codesOf_cons _ (Ne.symm unmarked.1), ih unmarked.2]
      rfl
  have small : ∀ {name : String}, IsSimple name → ∀ code ∈ name.toList.map Char.toNat, code < 128 := by
    intro name simple code member
    obtain ⟨char, within, rfl⟩ := mem_map.mp member
    exact simple.ascii char within
  rcases codesOf_append before.toList with ⟨points, whole⟩ | ⟨points, open'⟩
  · refine ⟨points, fun name simple => ⟨name.toList.map Char.toNat,
      by rw [length_map, String.length_toList], small simple, ?_⟩⟩
    rw [codes_eq_codesOf, codes_eq_codesOf, String.toList_append, String.toList_append,
      append_assoc, whole, held simple, append_assoc]
  · -- The first character of the stretch tells what a mark before it means.
    refine ⟨points, fun name simple => ?_⟩
    obtain ⟨first, rest, chars⟩ : ∃ first rest, name.toList = first :: rest :=
      exists_cons_of_ne_nil fun empty => simple.some (String.toList_eq_nil_iff.mp empty)
    have tail : ∀ more, codesOf (rest ++ more) = rest.map Char.toNat ++ codesOf more := by
      intro more
      have own : first ≠ mark := by
        rintro rfl
        have := simple.ascii mark (chars ▸ mem_cons_self)
        rw [toNat_mark] at this
        omega
      have all := held simple more
      rw [chars, cons_append, codesOf_cons _ own] at all
      exact (cons.inj all).2
    refine ⟨markedCode first :: rest.map Char.toNat, ?_, ?_, ?_⟩
    · rw [length_cons, length_map, ← String.length_toList, chars, length_cons]
    · intro code member
      rcases mem_cons.mp member with rfl | later
      · have := simple.ascii first (chars ▸ mem_cons_self)
        rw [markedCode]
        split
        · next same =>
          rw [same, toNat_mark] at this
          omega
        · omega
      · exact small simple code (chars ▸ mem_cons_of_mem _ later)
    · rw [codes_eq_codesOf, codes_eq_codesOf, String.toList_append, String.toList_append,
        append_assoc, chars, cons_append, open', tail]
      simp

theorem unencodableFrom_eq_none_iff {position : Nat} :
    unencodableFrom named position points = none ↔
      ∀ code ∈ points, (isHalf code && !(named && standsForByte code)) = false := by
  induction points generalizing position with
  | nil => simp [unencodableFrom]
  | cons code rest ih =>
    rw [unencodableFrom]
    by_cases wrong : (isHalf code && !(named && standsForByte code)) = true
    · rw [if_pos wrong]
      simp only [mem_cons, forall_eq_or_imp, wrong]
      simp
    · rw [if_neg wrong, ih]
      simp only [mem_cons, forall_eq_or_imp, Bool.eq_false_iff.mpr wrong, true_and]

theorem unencodable?_eq_none_iff : unencodable? named text = none ↔
      ∀ code ∈ codes text, (isHalf code && !(named && standsForByte code)) = false := by
  rw [unencodable?]
  split
  · exact unencodableFrom_eq_none_iff
  · next none =>
    have none := hasMark_eq_false_iff.mp (Bool.eq_false_iff.mpr none)
    rw [codes_eq_codesOf, codesOf_of_unmarked none]
    refine ⟨fun _ code member => ?_, fun _ => rfl⟩
    obtain ⟨char, -, rfl⟩ := mem_map.mp member
    rw [not_isHalf_toNat, Bool.false_and]

theorem unusable?_replace (simple : IsSimple old) (simple' : IsSimple new)
    (usable : Disk.unusable? (before ++ old ++ after) = none) :
    Disk.unusable? (before ++ new ++ after) = none := by
  obtain ⟨points, around⟩ := exists_codes_around before after
  obtain ⟨own, -, -, held⟩ := around old simple
  obtain ⟨own', -, small, held'⟩ := around new simple'
  rw [Disk.unusable?] at usable
  split at usable
  · cases usable
  · next encodable =>
    have encodable' : unencodable? true (before ++ new ++ after) = none := by
      rw [unencodable?_eq_none_iff, held] at encodable
      rw [unencodable?_eq_none_iff, held']
      intro code member
      rw [mem_append, mem_append] at member
      rcases member with (first | middle) | last
      · exact encodable code (by simp [first])
      · have := small code middle
        have : isHalf code = false := by
          simp only [isHalf, isHigh, isLow, Bool.or_eq_false_iff, Bool.and_eq_false_iff,
            decide_eq_false_iff_not]
          omega
        rw [this, Bool.false_and]
      · exact encodable code (by simp [last])
    rw [Disk.unusable?, encodable']
    split at usable
    · cases usable
    · next closed =>
      rw [contains_iff_mem, String.toList_append, String.toList_append, mem_append,
        mem_append, not_or, not_or] at closed
      rw [if_neg]
      rw [contains_iff_mem, String.toList_append, String.toList_append, mem_append,
        mem_append, not_or, not_or]
      exact ⟨⟨closed.1.1, simple'.closed⟩, closed.2⟩

theorem utf8ByteSize_of_ascii (ascii : ∀ char ∈ text.toList, char.toNat < 128) :
    text.utf8ByteSize = text.length := by
  have bytes : (Bytes.ofText text).length = text.utf8ByteSize := by
    rw [Bytes.ofText, String.toUTF8, ByteArray.toList, toList_loop]
    exact Array.length_toList
  rw [← bytes, ofText_of_ascii ascii, length_map, String.length_toList]

/-- The number of bytes of a code point in the name of a file. -/
def codeSize (code : Nat) : Nat :=
  if standsForByte code then 1 else (Char.ofNat code).utf8Size

theorem total_codeSize_of_small (small : ∀ code ∈ points, code < 128) :
    Bytes.total (points.map codeSize) = points.length := by
  induction points with
  | nil => rfl
  | cons code rest ih =>
    have ascii : ∀ code < 128, codeSize code = 1 := by decide
    have one := ascii code (small code mem_cons_self)
    have later := ih (forall_mem_cons.mp small).2
    rw [Bytes.total] at later ⊢
    rw [map_cons, foldr_cons, later, one, length_cons, Nat.add_comm]

theorem total_append (sizes more : List Nat) :
    Bytes.total (sizes ++ more) = Bytes.total sizes + Bytes.total more := by
  induction sizes with
  | nil => exact (Nat.zero_add _).symm
  | cons size rest ih =>
    simp only [Bytes.total, cons_append, foldr_cons] at ih ⊢
    rw [ih, Nat.add_assoc]

theorem nameSize_eq (text : String) :
    nameSize text = if hasMark text then Bytes.total ((codes text).map codeSize)
      else text.utf8ByteSize :=
  rfl

theorem exceeds_replace {limit : Nat} (simple : IsSimple old) (simple' : IsSimple new)
    (shorter : new.length ≤ old.length) (short : exceeds limit (before ++ old ++ after) = false) :
    exceeds limit (before ++ new ++ after) = false := by
  have fewer : (before ++ new ++ after).utf8ByteSize ≤ (before ++ old ++ after).utf8ByteSize := by
    simp only [String.utf8ByteSize_append, utf8ByteSize_of_ascii simple.ascii,
      utf8ByteSize_of_ascii simple'.ascii]
    omega
  have marked : ∀ {name : String}, IsSimple name →
      hasMark (before ++ name ++ after) = (hasMark before || hasMark after) := by
    intro name simple
    have unmarked : hasMark name = false := hasMark_eq_false_iff.mpr fun marks => by
      have := simple.ascii mark marks
      rw [toNat_mark] at this
      omega
    rw [hasMark] at unmarked ⊢
    rw [hasMark, hasMark, String.toList_append, String.toList_append, any_append, any_append,
      unmarked, Bool.or_false]
  have smaller : nameSize (before ++ new ++ after) ≤ nameSize (before ++ old ++ after) := by
    rw [nameSize_eq, nameSize_eq, marked simple, marked simple']
    split
    · obtain ⟨points, around⟩ := exists_codes_around before after
      obtain ⟨own, length, small, held⟩ := around old simple
      obtain ⟨own', length', small', held'⟩ := around new simple'
      simp only [held, held', map_append, total_append, total_codeSize_of_small small,
        total_codeSize_of_small small', length, length']
      omega
    · exact fewer
  rw [exceeds, Bool.and_eq_false_iff, decide_eq_false_iff_not, decide_eq_false_iff_not] at short ⊢
  omega

end Text
end Whittle
