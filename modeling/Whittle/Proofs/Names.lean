import Whittle.Disk.Change
import Whittle.Proofs.Step
import Whittle.Proofs.Text

/-!
Names of files on disk. A path that can be looked up has no halves of pairs but those that
stand for single bytes. Hence the names in it are well formed, if only their characters hold
code points (`Path.IsWhole.isWellFormed_of_child`).
-/

namespace Whittle

open List

variable {code : Nat} {first chars : List Char} {rest : List (List Char)} {path : Path}
  {names : List String}

namespace Text

/-- The characters of a text hold code points. -/
def IsWhole (text : String) : Prop :=
  (codes text).flatMap ofCode = text.toList

variable {text first second : String} {points : List Nat}

section

variable (inRange : ∀ code ∈ points, code < 0x110000) (holds : text.toList = points.flatMap ofCode)

include inRange holds

theorem codes_of_toList : codes text = points := by
  rw [codes_eq_codesOf, holds, codesOf_flatMap_ofCode points inRange]

theorem isWhole_of_toList : IsWhole text := by
  rw [IsWhole, codes_of_toList inRange holds, holds]

end

theorem inRange_codes (text : String) : ∀ code ∈ codes text, code < 0x110000 := by
  intro code member
  rw [codes_eq_codesOf] at member
  exact lt_of_mem_codesOf member

theorem isWhole_of_unmarked (unmarked : mark ∉ text.toList) : IsWhole text :=
  (isWellFormed_of_unmarked unmarked).whole

theorem IsWhole.toList_append (whole : IsWhole first) (whole' : IsWhole second) :
    (first ++ second).toList = (codes first ++ codes second).flatMap ofCode := by
  rw [String.toList_append, flatMap_append, whole, whole']

theorem inRange_append (first second : String) :
    ∀ code ∈ codes first ++ codes second, code < 0x110000 := by
  intro code member
  rcases mem_append.mp member with there | there
  · exact inRange_codes first code there
  · exact inRange_codes second code there

theorem IsWhole.append (whole : IsWhole first) (whole' : IsWhole second) :
    IsWhole (first ++ second) :=
  isWhole_of_toList (inRange_append first second) (whole.toList_append whole')

theorem IsWhole.codes_append (whole : IsWhole first) (whole' : IsWhole second) :
    codes (first ++ second) = codes first ++ codes second :=
  codes_of_toList (inRange_append first second) (whole.toList_append whole')

theorem isHigh_eq_false_of_encodable (encodable : unencodable? true text = none)
    (member : code ∈ codes text) : isHigh code = false := by
  have single := unencodable?_eq_none_iff.mp encodable code member
  rw [Bool.eq_false_iff]
  intro high
  simp only [isHigh, Bool.and_eq_true, decide_eq_true_eq] at high
  simp only [isHalf, isHigh, isLow, standsForByte, Bool.true_and, Bool.and_eq_false_iff,
    Bool.or_eq_false_iff, decide_eq_false_iff_not, Bool.not_eq_eq_eq_not, Bool.not_false,
    Bool.and_eq_true, decide_eq_true_eq] at single
  omega

/-- Without first halves there are no pairs. -/
theorem IsWhole.isWellFormed (whole : IsWhole text)
    (single : ∀ code ∈ codes text, isHigh code = false) : IsWellFormed text where
  whole := whole
  apart := by
    have none : (codes text).Pairwise fun first second => ¬ (isHigh first = true ∧ isLow second = true) := by
      refine pairwise_of_forall_mem_list fun first member second _ pair => ?_
      rw [single first member] at pair
      cases pair.1
    exact none.isChain

end Text

namespace Path

open Text (IsWhole codes ofCode)

theorem slash_mem_ofCode (slash : '/' ∈ ofCode code) : code = 47 := by
  have told : ∀ {number : Nat}, '/' = Char.ofNat number → number = 47 := by
    intro number same
    by_cases valid : number.isValidChar
    · rw [← Text.toNat_ofNat valid, ← same]
      rfl
    · rw [show Char.ofNat number = Char.ofNat 0 from dif_neg valid] at same
      exact absurd same (by decide)
  have apart : '/' ≠ Text.mark := by decide
  rw [ofCode] at slash
  split at slash
  · next half =>
    simp only [mem_cons, not_mem_nil, or_false, apart, false_or] at slash
    have := told slash
    simp only [Text.halfDistance] at this
    omega
  · split at slash
    · simp [apart] at slash
    · exact told (mem_singleton.mp slash)

theorem exists_pieces (chars : List Char) : ∃ first rest, pieces chars = first :: rest := by
  cases chars with
  | nil => exact ⟨_, _, rfl⟩
  | cons char rest =>
    rw [pieces, foldr_cons]
    split
    · exact ⟨_, _, rfl⟩
    · split <;> exact ⟨_, _, rfl⟩

theorem pieces_cons (char : Char) (found : pieces chars = first :: rest) : pieces (char :: chars) =
      if char = '/' then [] :: first :: rest else (char :: first) :: rest := by
  rw [pieces] at found ⊢
  rw [foldr_cons, found]

theorem pieces_append {own : List Char}
    (noSlash : '/' ∉ own) (found : pieces chars = first :: rest) :
    pieces (own ++ chars) = (own ++ first) :: rest := by
  induction own with
  | nil => exact found
  | cons char more ih =>
    rw [mem_cons, not_or] at noSlash
    rw [cons_append, pieces_cons char (ih noSlash.2), if_neg (Ne.symm noSlash.1)]
    rfl

/-- The pieces of characters that hold code points hold those between slashes. -/
theorem pieces_flatMap (points : List Nat) : ∃ parts : List (List Nat),
    pieces (points.flatMap ofCode) = parts.map (·.flatMap ofCode) ∧
      (∀ part ∈ parts, part ⊆ points) ∧ ∀ code ∈ points, code ≠ 47 → ∃ part ∈ parts, code ∈ part := by
  induction points with
  | nil => exact ⟨[[]], rfl, by simp, by simp⟩
  | cons code rest ih =>
    obtain ⟨parts, found, within, all⟩ := ih
    obtain ⟨part, more, rfl⟩ : ∃ part more, parts = part :: more := by
      obtain ⟨_, _, some⟩ := exists_pieces (rest.flatMap ofCode)
      rw [found] at some
      exact exists_cons_of_ne_nil fun empty => by simp [empty] at some
    rw [flatMap_cons]
    by_cases slash : code = 47
    · subst slash
      refine ⟨[] :: part :: more, ?_, ?_, ?_⟩
      · exact (pieces_cons '/' found).trans (if_pos rfl)
      · intro other member
        rcases mem_cons.mp member with rfl | later
        · exact nil_subset _
        · exact fun _ there => mem_cons_of_mem _ (within other later there)
      · intro other member apart
        obtain ⟨own, listed, there⟩ := all other ((mem_cons.mp member).resolve_left apart) apart
        exact ⟨own, mem_cons_of_mem _ listed, there⟩
    · refine ⟨(code :: part) :: more, ?_, ?_, ?_⟩
      · rw [pieces_append (fun is => slash (slash_mem_ofCode is)) found, map_cons,
          flatMap_cons]
      · intro other member
        rcases mem_cons.mp member with rfl | later
        · exact cons_subset_cons _ (within part mem_cons_self)
        · exact fun _ there => mem_cons_of_mem _ (within other (mem_cons_of_mem _ later) there)
      · intro other member apart
        rcases mem_cons.mp member with rfl | later
        · exact ⟨_, mem_cons_self, mem_cons_self⟩
        · obtain ⟨own, listed, there⟩ := all other later apart
          rcases mem_cons.mp listed with rfl | listed
          · exact ⟨_, mem_cons_self, mem_cons_of_mem _ there⟩
          · exact ⟨own, mem_cons_of_mem _ listed, there⟩

/-- The texts of a path hold code points. -/
structure IsWhole (path : Path) : Prop where
  root : Text.IsWhole path.root
  names : ∀ name ∈ path.names, Text.IsWhole name

variable {root : Path} {name part : String}

theorem mem_names_ofText : part ∈ (ofText name).names ↔
    (∃ piece ∈ pieces name.toList, String.ofList piece = part) ∧ part ≠ "" ∧ part ≠ "." := by
  simp [ofText, allNames]

theorem isWhole_of_mem_ofText (whole : Text.IsWhole name) (member : part ∈ (ofText name).names) :
    Text.IsWhole part := by
  obtain ⟨⟨piece, listed, rfl⟩, -⟩ := mem_names_ofText.mp member
  obtain ⟨parts, found, within, -⟩ := pieces_flatMap (codes name)
  rw [← show (codes name).flatMap ofCode = name.toList from whole, found] at listed
  obtain ⟨points, among, rfl⟩ := mem_map.mp listed
  exact Text.isWhole_of_toList
    (fun code there => Text.inRange_codes name code (within points among there))
    String.toList_ofList

/-- A code point that is neither a slash nor a point stands in one of the names of a path. -/
theorem exists_mem_ofText (whole : Text.IsWhole name) (member : code ∈ codes name)
    (slash : code ≠ 47) (point : code ≠ 46) : ∃ part ∈ (ofText name).names, code ∈ codes part := by
  obtain ⟨parts, found, within, all⟩ := pieces_flatMap (codes name)
  obtain ⟨points, listed, there⟩ := all code member slash
  have holds : codes (String.ofList (points.flatMap ofCode)) = points :=
    Text.codes_of_toList
      (fun code there => Text.inRange_codes name code (within points listed there))
      String.toList_ofList
  refine ⟨String.ofList (points.flatMap ofCode), mem_names_ofText.mpr ⟨⟨_, ?_, rfl⟩, ?_, ?_⟩, ?_⟩
  · rw [← show (codes name).flatMap ofCode = name.toList from whole, found]
    exact mem_map_of_mem listed
  · intro empty
    rw [← holds, empty, Text.codes_eq_codesOf, show Text.codesOf "".toList = [] by decide] at there
    cases there
  · intro here
    rw [← holds, here, Text.codes_eq_codesOf, show Text.codesOf ".".toList = [46] by decide] at there
    exact point (mem_singleton.mp there)
  · rwa [holds]

theorem isWhole_slash : Text.IsWhole "/" :=
  Text.isWhole_of_unmarked (by decide)

theorem codes_intercalate (whole : ∀ name ∈ names, Text.IsWhole name) :
    Text.IsWhole ("/".intercalate names) ∧
      ∀ name ∈ names, codes name ⊆ codes ("/".intercalate names) := by
  induction names with
  | nil => exact ⟨Text.isWhole_of_unmarked (by decide), by simp⟩
  | cons name rest ih =>
    have own := whole name mem_cons_self
    obtain ⟨rest', within⟩ := ih (forall_mem_cons.mp whole).2
    cases rest with
    | nil =>
      rw [String.intercalate_singleton]
      exact ⟨own, by simp⟩
    | cons next more =>
      rw [String.intercalate_cons_cons]
      have begins := own.append isWhole_slash
      refine ⟨begins.append rest', fun other member => ?_⟩
      rw [begins.codes_append rest', own.codes_append isWhole_slash]
      rcases mem_cons.mp member with rfl | later
      · exact fun _ there => mem_append_left _ (mem_append_left _ there)
      · exact fun _ there => mem_append_right _ (within other later there)

theorem IsWhole.text (whole : path.IsWhole) : Text.IsWhole path.text := by
  rw [Path.text]
  split
  · exact Text.isWhole_of_unmarked (by decide)
  · exact whole.root.append (codes_intercalate whole.names).1

theorem IsWhole.codes_subset_text (whole : path.IsWhole) (member : part ∈ path.names) :
    codes part ⊆ codes path.text := by
  obtain ⟨joined, within⟩ := codes_intercalate whole.names
  rw [Path.text, if_neg fun empty => by simp [empty.2] at member, whole.root.codes_append joined]
  exact fun _ there => mem_append_right _ (within part member there)

theorem isWhole_rootOf (chars : List Char) : Text.IsWhole (rootOf chars) := by
  refine Text.isWhole_of_unmarked ?_
  unfold rootOf
  split <;> decide

theorem isWhole_ofText (whole : Text.IsWhole name) : (ofText name).IsWhole :=
  ⟨isWhole_rootOf _, fun _ => isWhole_of_mem_ofText whole⟩

theorem IsWhole.child (whole : root.IsWhole) (named : Text.IsWhole name) :
    (root.child name).IsWhole := by
  have own := isWhole_ofText named
  rw [Path.child, append]
  split
  · exact own
  · refine ⟨whole.root, fun other member => ?_⟩
    rcases mem_append.mp member with there | there
    · exact whole.names other there
    · exact own.names other there

theorem names_subset_child (root : Path) (name : String) :
    (ofText name).names ⊆ (root.child name).names := by
  rw [child, append]
  split
  · exact fun _ => id
  · exact fun _ => mem_append_right _

theorem encodable_of_usable {text : String} (usable : Disk.unusable? text = none) :
    Text.unencodable? true text = none := by
  rw [Disk.unusable?] at usable
  split at usable
  · cases usable
  · assumption

theorem IsWhole.isWellFormed_text (whole : path.IsWhole)
    (usable : Disk.unusable? path.text = none) : Text.IsWellFormed path.text :=
  whole.text.isWellFormed fun _ => Text.isHigh_eq_false_of_encodable (encodable_of_usable usable)

/-- A name below a root is well formed if it can be looked up there. -/
theorem IsWhole.isWellFormed_of_child (whole : root.IsWhole) (named : Text.IsWhole name)
    (usable : Disk.unusable? (root.child name).text = none) : Text.IsWellFormed name := by
  refine named.isWellFormed fun code member => ?_
  by_contra high
  rw [Bool.not_eq_false] at high
  have bounds : 0xd800 ≤ code := by
    simp only [Text.isHigh, Bool.and_eq_true, decide_eq_true_eq] at high
    exact high.1
  obtain ⟨part, listed, there⟩ := exists_mem_ofText named member (by omega) (by omega)
  have within := (whole.child named).codes_subset_text (names_subset_child root name listed)
  rw [Text.isHigh_eq_false_of_encodable (encodable_of_usable usable) (within there)] at high
  cases high

/-! ### Paths read again -/

theorem slash_not_mem_pieces (chars : List Char) : ∀ piece ∈ pieces chars, '/' ∉ piece := by
  induction chars with
  | nil => simp [pieces]
  | cons char rest ih =>
    obtain ⟨first, more, found⟩ := exists_pieces rest
    rw [found] at ih
    rw [pieces_cons char found]
    split
    · simpa using ih
    · next other =>
      rw [forall_mem_cons] at ih ⊢
      refine ⟨fun slash => ?_, ih.2⟩
      rcases mem_cons.mp slash with same | later
      · exact other same.symm
      · exact ih.1 later

theorem of_mem_names_ofText (member : part ∈ (ofText name).names) :
    '/' ∉ part.toList ∧ part ≠ "" ∧ part ≠ "." := by
  obtain ⟨⟨piece, listed, rfl⟩, named⟩ := mem_names_ofText.mp member
  rw [String.toList_ofList]
  exact ⟨slash_not_mem_pieces _ piece listed, named⟩

theorem pieces_intercalate (nonnil : names ≠ []) (noSlash : ∀ name ∈ names, '/' ∉ name.toList) :
    pieces ("/".intercalate names).toList = names.map String.toList := by
  induction names with
  | nil => exact absurd rfl nonnil
  | cons name rest ih =>
    have own := noSlash name mem_cons_self
    cases rest with
    | nil =>
      rw [String.intercalate_singleton]
      have whole := pieces_append own (show pieces [] = [] :: [] from rfl)
      rwa [append_nil] at whole
    | cons next more =>
      have later := ih (by simp) (forall_mem_cons.mp noSlash).2
      rw [String.intercalate_cons_cons, String.toList_append, String.toList_append, append_assoc]
      refine (pieces_append own ?_).trans (by rw [append_nil, map_cons])
      exact (pieces_cons '/' later).trans (if_pos rfl)

theorem rootOf_cases (chars : List Char) :
    rootOf chars = "" ∨ rootOf chars = "/" ∨ rootOf chars = "//" := by
  unfold rootOf
  split <;> simp

theorem rootOf_of_front (front : ∀ rest, chars ≠ '/' :: rest) :
    rootOf chars = "" ∧ rootOf ('/' :: chars) = "/" ∧ rootOf ('/' :: '/' :: chars) = "//" := by
  cases chars with
  | nil => decide
  | cons char rest =>
    have other : char ≠ '/' := fun same => front rest (same ▸ rfl)
    simp [rootOf, other]

def namesOf (chars : List Char) : List String :=
  ((pieces chars).map String.ofList).filter fun name => name ≠ "" ∧ name ≠ "."

theorem ofText_eq (text : String) : ofText text = ⟨rootOf text.toList, namesOf text.toList⟩ :=
  rfl

theorem namesOf_slash (chars : List Char) : namesOf ('/' :: chars) = namesOf chars := by
  obtain ⟨first, rest, found⟩ := exists_pieces chars
  rw [namesOf, namesOf, pieces_cons '/' found, if_pos rfl, found]
  rfl

section Joined

variable (named : ∀ part ∈ names, '/' ∉ part.toList ∧ part ≠ "" ∧ part ≠ ".")

include named

/-- Names that are joined do not begin with a slash. -/
theorem front_intercalate (rest : List Char) : ("/".intercalate names).toList ≠ '/' :: rest := by
  intro begins
  cases names with
  | nil => cases begins
  | cons first more =>
    obtain ⟨noSlash, some, -⟩ := named first mem_cons_self
    obtain ⟨char, others, chars⟩ := exists_cons_of_ne_nil fun empty =>
      some (String.toList_eq_nil_iff.mp empty)
    obtain ⟨tail, whole⟩ : ∃ tail, ("/".intercalate (first :: more)).toList =
        first.toList ++ tail := by
      cases more with
      | nil => exact ⟨[], by rw [String.intercalate_singleton, append_nil]⟩
      | cons next later =>
        rw [String.intercalate_cons_cons, String.toList_append, String.toList_append,
          append_assoc]
        exact ⟨_, rfl⟩
    rw [whole, chars, cons_append] at begins
    rw [chars] at noSlash
    exact noSlash ((cons.inj begins).1 ▸ mem_cons_self)

/-- Names that are joined are told apart again. -/
theorem namesOf_intercalate : namesOf ("/".intercalate names).toList = names := by
  by_cases empty : names = []
  · subst empty
    decide
  · rw [namesOf, pieces_intercalate empty fun part member => (named part member).1, map_map,
      show String.ofList ∘ String.toList = id from funext fun _ => String.ofList_toList,
      map_id, filter_eq_self]
    intro part member
    simpa using (named part member).2

end Joined

/-- A path that was read is read again from its text. -/
theorem ofText_text_ofText (text : String) : ofText (ofText text).text = ofText text := by
  have named : ∀ part ∈ (ofText text).names, '/' ∉ part.toList ∧ part ≠ "" ∧ part ≠ "." :=
    fun part => of_mem_names_ofText
  have roots : (ofText text).root = "" ∨ (ofText text).root = "/" ∨ (ofText text).root = "//" :=
    rootOf_cases text.toList
  generalize ofText text = path at named roots
  obtain ⟨root, names⟩ := path
  have read := namesOf_intercalate named
  obtain ⟨plain, one, two⟩ := rootOf_of_front (front_intercalate named)
  rw [Path.text]
  split
  · next here =>
    obtain ⟨rfl, rfl⟩ := here
    decide
  · rw [ofText_eq, String.toList_append]
    rcases roots with rfl | rfl | rfl
    · rw [String.toList_empty, nil_append, plain, read]
    · dsimp only
      rw [show "/".toList = ['/'] by decide, singleton_append, one, namesOf_slash, read]
    · dsimp only
      rw [show "//".toList = ['/', '/'] by decide, cons_append, singleton_append, two,
        namesOf_slash, namesOf_slash, read]

/-- A path that was read from a text whose characters hold code points. -/
def IsRead (path : Path) : Prop :=
  ∃ text, Text.IsWhole text ∧ path = ofText text

theorem IsRead.isWhole (read : path.IsRead) : path.IsWhole := by
  obtain ⟨text, whole, rfl⟩ := read
  exact isWhole_ofText whole

theorem IsRead.ofText_text (read : path.IsRead) : ofText path.text = path := by
  obtain ⟨text, -, rfl⟩ := read
  exact ofText_text_ofText text

end Path

namespace Disk

variable {disk : Disk}

theorem usable_of_read {data : Bytes} (read : disk.read path = .ok data) :
    unusable? path.text = none := by
  obtain ⟨place, located, -⟩ := bind_eq_ok_iff.mp read
  rw [locate, atPath] at located
  split at located
  · cases located
  · assumption

theorem usable_of_isDir (dir : disk.isDir path = .ok true) : unusable? path.text = none := by
  rw [isDir, status] at dir
  split at dir
  · cases dir
  · next usable => simpa using usable

end Disk
end Whittle
