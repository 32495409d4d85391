import Mathlib.Algebra.BigOperators.Group.List.Basic
import Mathlib.Algebra.GroupWithZero.Nat
import Mathlib.Data.List.DropRight
import Whittle.Proofs.Transaction
import Whittle.Pass.Proposals

/-!
What discarding blanks leaves of a file, and which files it leaves alone. All is said of the lines of
a file: a line is clean if it is not empty and no blank stands at its end (`Bytes.IsClean`), and a file
is tidy if its lines are clean (`Bytes.IsTidy`). A candidate takes blanks away and nothing else, and
leaves a tidy file (`Pass.discardWhitespace_tidies`).

Every line is written back with a newline, the last one too if it had none. So a line loses as many
bytes as it has too many (`Bytes.excess`), but a file whose last line has no newline gets one. With one
blank byte too many such a file would not get shorter, and is left as it is
(`Pass.discardWhitespace_idle_iff`).
-/

namespace Whittle

open List

namespace Bytes

variable {bytes line front : Bytes} {last : UInt8} {kept : List Bytes}

/-! ### Lines -/

theorem lines_eq_splitOn (bytes : Bytes) : bytes.lines = splitOn newline bytes := by
  induction bytes with
  | nil => rfl
  | cons byte rest ih =>
    obtain ⟨piece, pieces, split⟩ := exists_cons_of_ne_nil (splitOn_ne_nil newline rest)
    rw [splitOn_cons_eq_if_modifyHead, split, lines, foldr_cons, ← lines, ih, split]
    by_cases ends : byte = newline <;> simp [ends]

theorem newline_notMem (member : line ∈ bytes.lines) : newline ∉ line := by
  rw [lines_eq_splitOn] at member
  induction bytes generalizing line with
  | nil => simp_all
  | cons byte rest ih =>
    obtain ⟨piece, pieces, split⟩ := exists_cons_of_ne_nil (splitOn_ne_nil newline rest)
    rw [splitOn_cons_eq_if_modifyHead, split, modifyHead_cons] at member
    by_cases ends : byte = newline <;> grind

theorem intercalate_concat (kept : List Bytes) (rest : Bytes) :
    [newline].intercalate (kept ++ [rest]) = kept.flatMap (· ++ [newline]) ++ rest := by
  induction kept with
  | nil => exact append_nil rest
  | cons line kept ih =>
    obtain ⟨next, others, more⟩ := exists_cons_of_ne_nil (show kept ++ [rest] ≠ [] by simp)
    rw [cons_append, more, intercalate_cons_cons, ← more, ih, flatMap_cons]
    simp

theorem append_newline (bytes : Bytes) : bytes ++ [newline] = bytes.lines.flatMap (· ++ [newline]) := by
  have whole : [newline].intercalate bytes.lines = bytes := by
    rw [lines_eq_splitOn, intercalate_splitOn]
  rcases eq_nil_or_concat bytes.lines with none | ⟨kept, rest, split⟩
  · rw [lines_eq_splitOn] at none
    exact absurd none (splitOn_ne_nil _ _)
  · rw [split, concat_eq_append, intercalate_concat] at whole
    rw [split, concat_eq_append, flatMap_append, flatMap_singleton, ← append_assoc, whole]

theorem lines_flatMap (closed : ∀ line ∈ kept, newline ∉ line) :
    lines (kept.flatMap (· ++ [newline])) = kept ++ [[]] := by
  have joined := intercalate_concat kept []
  rw [append_nil] at joined
  rw [← joined, lines_eq_splitOn, splitOn_intercalate]
  · simpa [or_imp, forall_and] using closed
  · simp

/-! ### Clean lines -/

def IsClean (line : Bytes) : Prop :=
  ∃ last ∈ line.getLast?, isBlank last = false

/-- A file has no blank line and no blank at the end of a line; what stands after the last newline may
be nothing. -/
structure IsTidy (bytes : Bytes) : Prop where
  lines : ∀ line ∈ bytes.lines.dropLast, IsClean line
  rest : ∀ rest ∈ bytes.lines.getLast?, rest = [] ∨ IsClean rest

/-- All lines of a file are clean, also the one after the last newline, but for one blank byte: a
newline that makes an empty line, or a blank at the end of a line. -/
def IsAlmostTidy (bytes : Bytes) : Prop :=
  ∃ before line after, bytes.lines = before ++ line :: after ∧
    (∀ other ∈ before ++ after, IsClean other) ∧
    (line = [] ∧ after ≠ [] ∨ ∃ clean blank, line = clean ++ [blank] ∧ IsClean clean ∧ isBlank blank)

theorem trimEnd_eq_rdropWhile (bytes : Bytes) : bytes.trimEnd = bytes.rdropWhile isBlank := by
  induction bytes using reverseRecOn with
  | nil => rfl
  | append_singleton front last ih =>
    by_cases blank : isBlank last = true
    · rw [rdropWhile_concat_pos _ _ _ blank, ← ih, trimEnd, foldr_append, trimEnd]
      simp [blank]
    · rw [rdropWhile_concat_neg _ _ _ blank]
      clear ih
      induction front with
      | nil => simp [trimEnd, blank]
      | cons byte front ih =>
        rw [cons_append, trimEnd, foldr_cons, ← trimEnd, ih]
        simp

theorem trimEnd_concat :
    trimEnd (front ++ [last]) = if isBlank last then trimEnd front else front ++ [last] := by
  rw [trimEnd_eq_rdropWhile, rdropWhile_concat, ← trimEnd_eq_rdropWhile]

theorem isClean_trimEnd (nonnil : line.trimEnd ≠ []) : IsClean line.trimEnd := by
  rw [trimEnd_eq_rdropWhile] at nonnil ⊢
  exact ⟨_, getLast?_eq_some_getLast nonnil, Bool.eq_false_iff.mpr (rdropWhile_last_not _ _ nonnil)⟩

def visible (bytes : Bytes) : Bytes :=
  bytes.filter (!isBlank ·)

theorem visible_append (front rest : Bytes) : visible (front ++ rest) = visible front ++ visible rest :=
  filter_append ..

theorem visible_append_blank (blank : isBlank last = true) : visible (front ++ [last]) = visible front := by
  simp [visible, blank]

theorem visible_trimEnd (line : Bytes) : visible line.trimEnd = visible line := by
  induction line using reverseRecOn with
  | nil => rfl
  | append_singleton front last ih =>
    rw [trimEnd_concat]
    split
    · next blank => rw [ih, visible_append_blank blank]
    · rfl

/-! ### What a line loses -/

def rewritten (line : Bytes) : Bytes :=
  if line.trimEnd = [] then [] else line.trimEnd ++ [newline]

theorem withoutBlanks_eq_flatMap (bytes : Bytes) :
    Pass.withoutBlanks bytes = bytes.lines.flatMap rewritten := by
  rw [Pass.withoutBlanks]
  induction bytes.lines with
  | nil => rfl
  | cons line rest ih =>
    rw [map_cons, filter_cons, flatMap_cons, ← ih, rewritten]
    split <;> simp_all

theorem visible_withoutBlanks (bytes : Bytes) : visible (Pass.withoutBlanks bytes) = visible bytes := by
  have same : ∀ line, visible (rewritten line) = visible (line ++ [newline]) := by
    intro line
    rw [visible_append_blank rfl, ← visible_trimEnd line, rewritten]
    split
    · next none => rw [none]
    · exact visible_append_blank rfl
  have ended : visible (bytes ++ [newline]) = visible bytes := visible_append_blank rfl
  rw [← ended, append_newline, withoutBlanks_eq_flatMap]
  induction bytes.lines with
  | nil => rfl
  | cons line rest ih => rw [flatMap_cons, flatMap_cons, visible_append, visible_append, ih, same]

def excess (line : Bytes) : Nat :=
  line.length + 1 - (rewritten line).length

theorem length_rewritten_add (line : Bytes) : (rewritten line).length + excess line = line.length + 1 := by
  refine Nat.add_sub_of_le ?_
  rw [rewritten, trimEnd_eq_rdropWhile]
  split
  · exact Nat.zero_le _
  · simpa using List.IsPrefix.length_le ( rdropWhile_prefix isBlank line)

theorem excess_nil : excess [] = 1 := rfl

theorem excess_concat : excess (front ++ [last]) = if isBlank last then excess front + 1 else 0 := by
  have whole := length_rewritten_add (front ++ [last])
  rw [rewritten, trimEnd_concat, length_append, length_singleton] at whole
  split
  · next blank =>
    rw [if_pos blank, ← rewritten] at whole
    have := length_rewritten_add front
    omega
  · next visible =>
    rw [if_neg visible] at whole
    simpa using whole

theorem excess_eq_zero_iff : excess line = 0 ↔ IsClean line := by
  rcases eq_nil_or_concat line with rfl | ⟨front, last, rfl⟩
  · simp [excess_nil, IsClean]
  · simp [excess_concat, IsClean]

theorem excess_eq_one_iff : excess line = 1 ↔
    line = [] ∨ ∃ clean blank, line = clean ++ [blank] ∧ IsClean clean ∧ isBlank blank := by
  rcases eq_nil_or_concat line with rfl | ⟨front, last, rfl⟩
  · simp [excess_nil]
  · rw [concat_eq_append, excess_concat]
    by_cases blank : isBlank last = true
    · simp [blank, excess_eq_zero_iff]
    · simp [blank]

theorem length_withoutBlanks (bytes : Bytes) :
    (Pass.withoutBlanks bytes).length + (bytes.lines.map excess).sum = bytes.length + 1 := by
  have whole := congrArg length (append_newline bytes)
  rw [length_append, length_singleton, length_flatMap] at whole
  rw [whole, withoutBlanks_eq_flatMap, length_flatMap, ← sum_map_add]
  simp [length_rewritten_add]

/-- Numbers that are no more than one together are all zero, but for a single one. -/
theorem sum_le_one_iff {measure : Bytes → Nat} : (kept.map measure).sum ≤ 1 ↔
    (∀ line ∈ kept, measure line = 0) ∨ ∃ before line after, kept = before ++ line :: after ∧
      (∀ other ∈ before ++ after, measure other = 0) ∧ measure line = 1 := by
  have zero : ∀ {some : List Bytes}, (some.map measure).sum = 0 ↔ ∀ line ∈ some, measure line = 0 := by
    simp [List.sum_eq_zero_iff_forall_eq_nat]
  constructor
  · intro few
    induction kept with
    | nil => exact .inl (by simp)
    | cons line rest ih =>
      rw [map_cons, sum_cons] at few
      rcases Nat.eq_zero_or_pos (measure line) with none | some
      · rcases ih (by omega) with all | ⟨before, other, after, rfl, all, one⟩
        · exact .inl (forall_mem_cons.mpr ⟨none, all⟩)
        · exact .inr ⟨line :: before, other, after, rfl, forall_mem_cons.mpr ⟨none, all⟩, one⟩
      · exact .inr ⟨[], line, rest, rfl, zero.mp (show (rest.map measure).sum = 0 by omega), by omega⟩
  · rintro (all | ⟨before, line, after, rfl, all, one⟩)
    · rw [zero.mpr all]
      exact Nat.zero_le 1
    · obtain ⟨front, back⟩ := forall_mem_append.mp all
      rw [map_append, sum_append, map_cons, sum_cons, zero.mpr front, zero.mpr back, one]

theorem length_le_withoutBlanks_iff : bytes.length ≤ (Pass.withoutBlanks bytes).length ↔
    bytes.IsTidy ∨ bytes.IsAlmostTidy := by
  have few : bytes.length ≤ (Pass.withoutBlanks bytes).length ↔ (bytes.lines.map excess).sum ≤ 1 := by
    have := length_withoutBlanks bytes
    omega
  rw [few, sum_le_one_iff]
  simp only [excess_eq_zero_iff, excess_eq_one_iff]
  constructor
  · rintro (all | ⟨before, line, after, split, all, which⟩)
    · exact .inl ⟨fun line member => all line (dropLast_subset _ member),
        fun rest is => .inr (all rest (mem_of_getLast? is))⟩
    · by_cases ends : line = [] ∧ after = []
      · obtain ⟨rfl, rfl⟩ := ends
        left
        constructor
        · simpa [split] using all
        · simp [split]
      · refine .inr ⟨before, line, after, split, all, which.imp_left fun none => ⟨none, ?_⟩⟩
        exact fun last => ends ⟨none, last⟩
  · rintro (tidy | ⟨before, line, after, split, all, which⟩)
    · rcases eq_nil_or_concat bytes.lines with none | ⟨kept, rest, split⟩
      · simp [none]
      · rw [concat_eq_append] at split
        have clean : ∀ line ∈ kept, IsClean line := by simpa [split] using tidy.lines
        rcases tidy.rest rest (by simp [split]) with rfl | last
        · exact .inr ⟨kept, [], [], split, by simpa using clean, .inl rfl⟩
        · left
          rw [split]
          simpa [or_imp, forall_and] using ⟨clean, last⟩
    · exact .inr ⟨before, line, after, split, all, which.imp_left And.left⟩

theorem withoutBlanks_isTidy (bytes : Bytes) : (Pass.withoutBlanks bytes).IsTidy ∧
    (Pass.withoutBlanks bytes = [] ∨ (Pass.withoutBlanks bytes).getLast? = some newline) := by
  rw [Pass.withoutBlanks]
  have clean : ∀ line ∈ (bytes.lines.map trimEnd).filter (!·.isEmpty), newline ∉ line ∧ IsClean line := by
    intro line member
    obtain ⟨trimmed, some⟩ := mem_filter.mp member
    obtain ⟨whole, listed, rfl⟩ := mem_map.mp trimmed
    refine ⟨fun within => newline_notMem listed ?_, isClean_trimEnd (by simpa using some)⟩
    rw [trimEnd_eq_rdropWhile] at within
    exact List.IsPrefix.subset ( rdropWhile_prefix _ _) within
  generalize (bytes.lines.map trimEnd).filter (!·.isEmpty) = kept at clean
  have split := lines_flatMap fun line member => (clean line member).1
  refine ⟨⟨?_, ?_⟩, ?_⟩
  · simpa [split] using fun line member => (clean line member).2
  · simp [split]
  · rcases eq_nil_or_concat kept with rfl | ⟨others, line, rfl⟩
    · exact .inl rfl
    · right
      simp

end Bytes

namespace Pass

variable {project : Project} {path : String} {file : TrackedFile}
  (found : Listing.get? project.files path = some file)

include found

/-- A file is left alone if it would not get shorter without blanks, and else replaced. -/
theorem blankRemovals_cases (passIndex : Int) :
    file.data.length ≤ (withoutBlanks file.data).length ∧
        blankRemovals project path passIndex = .ok [] ∨
      (withoutBlanks file.data).length < file.data.length ∧ ∃ candidate,
        blankRemovals project path passIndex = .ok [candidate] ∧
        candidate.spliceInto file.data = .ok (withoutBlanks file.data) := by
  simp only [blankRemovals, Project.file_eq_ok_iff.mpr found, bind, Except.bind]
  split
  · next long => exact .inl ⟨long, rfl⟩
  · next short =>
    refine .inr ⟨Nat.lt_of_not_le short, _, rfl, ?_⟩
    simp [Candidate.spliceInto, Splice.applyAll, Splice.applyFrom, Splice.Fits, Except.map]

theorem blankRemovals_eq_nil_iff (passIndex : Int) :
    blankRemovals project path passIndex = .ok [] ↔ file.data.IsTidy ∨ file.data.IsAlmostTidy := by
  rw [← Bytes.length_le_withoutBlanks_iff]
  rcases blankRemovals_cases found passIndex with ⟨long, none⟩ | ⟨short, candidate, one, -⟩
  · simp [long, none]
  · simp [short, one]

/-- Nothing is proposed for a file exactly if it is tidy, or if no newline stands at its end and one
blank byte at the end of a line keeps it from being tidy: the newline that the last line would get
makes up for that byte. -/
theorem discardWhitespace_idle_iff (passIndex : Int) (position : Option (List Int)) :
    discardWhitespace.proposals project (some path) passIndex position = .ok [] ↔
      file.data.IsTidy ∨ file.data.IsAlmostTidy :=
  blankRemovals_eq_nil_iff found passIndex

/-- A candidate takes nothing away but blanks, and leaves a file that is shorter, tidy, and empty or
ended with a newline. For such a file nothing more is proposed. -/
theorem discardWhitespace_tidies {candidates : List Candidate} {candidate : Candidate} {passIndex : Int}
    {position : Option (List Int)}
    (made : discardWhitespace.proposals project (some path) passIndex position = .ok candidates)
    (member : candidate ∈ candidates) :
    ∃ result, candidate.spliceInto file.data = .ok result ∧
      result.filter (!Bytes.isBlank ·) = file.data.filter (!Bytes.isBlank ·) ∧
      (result = [] ∨ result.getLast? = some Bytes.newline) ∧ result.IsTidy ∧
      result.length < file.data.length ∧
      ∀ (later : Project) (name : String) (other : TrackedFile) (index : Int) (start : Option (List Int)),
        Listing.get? later.files name = some other → other.data = result →
        discardWhitespace.proposals later (some name) index start = .ok [] := by
  obtain ⟨tidy, ended⟩ := Bytes.withoutBlanks_isTidy file.data
  rcases blankRemovals_cases found passIndex with ⟨_, none⟩ | ⟨short, only, one, spliced⟩
  · cases made.symm.trans none
    cases member
  · cases made.symm.trans one
    cases mem_singleton.mp member
    refine ⟨_, spliced, Bytes.visible_withoutBlanks file.data, ended, tidy, short, ?_⟩
    intro later name other index start found same
    exact (blankRemovals_eq_nil_iff found index).mpr (.inl (same ▸ tidy))

end Pass

namespace Sample

/-- Two lines with blanks after the first, and empty lines between them. -/
def spaced : TrackedFile :=
  fileOf [97, 32, 32, 10, 10, 10, 98, 10]

theorem discardWhitespace_tidies_spaced : ∃ candidate result,
    Pass.discardWhitespace.proposals { project with files := [("a", spaced)] } (some "a") 4 none =
        .ok [candidate] ∧
      candidate.spliceInto spaced.data = .ok result ∧ result = [97, 10, 98, 10] ∧ result.IsTidy := by
  have found : Listing.get? { project with files := [("a", spaced)] }.files "a" = some spaced := rfl
  have made : ∃ candidate, Pass.discardWhitespace.proposals { project with files := [("a", spaced)] }
      (some "a") 4 none = .ok [candidate] := ⟨_, rfl⟩
  obtain ⟨candidate, made⟩ := made
  obtain ⟨result, spliced, -, -, tidy, -⟩ :=
    Pass.discardWhitespace_tidies found made (mem_singleton.mpr rfl)
  cases made
  cases spliced
  exact ⟨_, _, rfl, rfl, rfl, tidy⟩

/-- A blank at the end of the first line, and no newline after the second. -/
def padded : TrackedFile :=
  fileOf [97, 32, 10, 98]

theorem discardWhitespace_idle_padded : padded.data.IsAlmostTidy ∧
    Pass.discardWhitespace.proposals { project with files := [("a", padded)] } (some "a") 4 none =
      .ok [] := by
  have found : Listing.get? { project with files := [("a", padded)] }.files "a" = some padded := rfl
  have almost : padded.data.IsAlmostTidy :=
    ⟨[], [97, 32], [[98]], rfl, by simp [Bytes.IsClean, Bytes.isBlank],
      .inr ⟨[97], 32, rfl, by simp [Bytes.IsClean, Bytes.isBlank], rfl⟩⟩
  exact ⟨almost, (Pass.discardWhitespace_idle_iff found 4 none).mpr (.inr almost)⟩

/-- An empty line between two lines, of which the second has no newline. -/
def doubled : TrackedFile :=
  fileOf [120, 10, 10, 121]

/-- Though there is an empty line, no candidate takes it away. -/
theorem discardWhitespace_misses_doubled : ¬ doubled.data.IsTidy ∧
    Pass.discardWhitespace.proposals { project with files := [("a", doubled)] } (some "a") 4 none =
      .ok [] := by
  refine ⟨fun tidy => ?_, rfl⟩
  obtain ⟨last, is, -⟩ := tidy.lines [] (by decide)
  cases is

end Sample
end Whittle
