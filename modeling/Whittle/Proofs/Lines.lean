import Whittle.Proofs.Blanks
import Whittle.Proofs.Projection
import Whittle.Proofs.Tiling

/-!
The lines of a file. They are found twice: as ranges, each up to its newline, for the tree of a file
without a grammar, and as the offsets after newlines, for the removal of lines. Both begin in the same
places (`spans_starts`), and the texts of the ranges give the file back (`spans_texts`).
-/

namespace Whittle

open List

variable {data piece rest : Bytes} {start offset : Nat}

theorem Bytes.mem_breaks (offset place : Nat) (data : Bytes) :
    offset + place + 1 ∈ breaks offset data ↔ data[place]? = some newline := by
  induction data generalizing offset place with
  | nil => simp [breaks]
  | cons byte rest ih =>
    rw [breaks]
    cases place with
    | zero =>
      have ahead := (Pass.pairwise_breaks (offset + 1) rest).2 (offset + 1)
      split <;> simp_all
    | succ place =>
      have later := ih (offset + 1) place
      rw [show offset + 1 + place + 1 = offset + (place + 1) + 1 by omega] at later
      split <;> simp [later]

/-- The removals of lines cut a file where its lines start and where it ends. -/
theorem Pass.exists_lineRemovals {project : Project} {path : String} {file : TrackedFile}
    (found : Listing.get? project.files path = some file) (passIndex : Int) (position : Option (List Int)) :
    ∃ candidates, removeLines.proposals project (some path) passIndex position = .ok candidates ∧
      candidates.map Candidate.splices =
        (Chunk.plan (startsOfLines file.data).length (chunkAt position)).map fun chunk =>
          let range := Chunk.range ((startsOfLines file.data).map Nat.cast) file.data.length chunk
          [{ start := range.1, stop := range.2 }] := by
  simp only [proposals, lineRemovals, Project.file_eq_ok_iff.mpr found]
  refine ⟨_, rfl, ?_⟩
  rw [map_map]
  refine map_congr_left fun chunk planned => ?_
  obtain ⟨positive, inside⟩ := Chunk.of_mem_plan planned
  simp only [Chunk.range, startsOfLines_getD]
  exact congrArg (· :: []) (lines_splice positive inside)

namespace Grammar.Lines

theorem spans_starts (within : start ≤ offset) : (spans start offset rest).map Prod.fst =
    (start :: Bytes.breaks offset rest).filter (· < offset + rest.length) := by
  fun_induction spans start offset rest with
  | case1 start offset some => simp [Bytes.breaks, some]
  | case2 start offset none => simp [Bytes.breaks, none]
  | case3 start offset rest ih =>
    rw [map_cons, ih (Nat.le_refl _), Bytes.breaks, if_pos rfl, length_cons,
      filter_cons_of_pos (p := fun place => decide (place < offset + (rest.length + 1))) (by simp; omega)]
    simp only [Nat.add_assoc, Nat.add_comm 1]
  | case4 start offset byte rest other ih =>
    rw [ih (by omega), Bytes.breaks, if_neg other, length_cons]
    simp only [Nat.add_assoc, Nat.add_comm 1]

/-- What is left of a file from the start of a line on is what its lines hold, each with a newline; the
last has one too many unless the file ends with one. -/
theorem spans_texts (split : data.drop start = piece ++ rest) (closed : Bytes.newline ∉ piece) :
    let texts := (spans start (start + piece.length) rest).map fun span => (data.take span.2).drop span.1
    (∀ text ∈ texts, Bytes.newline ∉ text) ∧ texts.flatMap (· ++ [Bytes.newline]) =
      piece ++ rest ++ if piece ++ rest = [] ∨ (piece ++ rest).getLast? = some Bytes.newline then []
        else [Bytes.newline] := by
  have text : (data.take (start + piece.length)).drop start = piece := by
    rw [drop_take, split, Nat.add_sub_cancel_left, take_left]
  induction rest generalizing start piece with
  | nil =>
    rcases eq_nil_or_concat piece with rfl | ⟨front, last, rfl⟩
    · simp [spans]
    · have open_ : last ≠ Bytes.newline := by
        rintro rfl
        exact closed (by simp)
      have some : start < start + (front.concat last).length := by simp
      rw [spans, if_pos some]
      simp only [map_cons, map_nil, text]
      exact ⟨forall_mem_singleton.mpr closed, by simp [open_]⟩
  | cons byte rest ih =>
    rw [spans]
    by_cases ends : byte = Bytes.newline
    · subst ends
      have split' : data.drop (start + piece.length + 1) = [] ++ rest := by
        rw [Nat.add_assoc, ← drop_drop, split, ← drop_drop, drop_left]
        rfl
      obtain ⟨lines, whole⟩ := ih split' not_mem_nil (by simp)
      rw [if_pos rfl, map_cons, text]
      refine ⟨forall_mem_cons.mpr ⟨closed, lines⟩, ?_⟩
      rw [flatMap_cons]
      refine (congrArg (_ ++ ·) whole).trans ?_
      rcases eq_nil_or_concat rest with rfl | ⟨front, last, rfl⟩
      · simp
      · simp [getLast?_cons]
    · have closed' : Bytes.newline ∉ piece ++ [byte] := by simp [closed, Ne.symm ends]
      have split' : data.drop start = (piece ++ [byte]) ++ rest := by simp [split]
      have found := ih split' closed' (by rw [drop_take, split', Nat.add_sub_cancel_left, take_left])
      rw [if_neg ends]
      simpa [Nat.add_assoc] using found

def lineOf (span : Nat × Nat) : Node :=
  { kind := "line", start := span.1, stop := span.2, parent := some 0 }

theorem foldl_grow {tree : Tree} {root : Node} {others : List Node}
    (nodes : tree.nodes.toList = root :: others) (spans : List (Nat × Nat)) : ∃ children,
      spans.foldl (fun tree span => tree.grow "line" span.1 span.2 0) tree =
        ⟨tree.source, ({ root with children } :: (others ++ spans.map lineOf)).toArray⟩ := by
  induction spans generalizing tree root others with
  | nil =>
    refine ⟨root.children, ?_⟩
    simp [← nodes]
  | cons span spans ih =>
    have inside : 0 < tree.nodes.size := by simp [← Array.length_toList, nodes]
    have grown : (tree.grow "line" span.1 span.2 0).nodes.toList =
        { root with children := root.children.push tree.nodes.size } :: (others ++ [lineOf span]) := by
      simp [tree.grow_eq _ _ _ inside, nodes, lineOf]
    obtain ⟨children, same⟩ := ih grown
    refine ⟨children, ?_⟩
    rw [foldl_cons, same, tree.grow_eq _ _ _ inside]
    simp

theorem exists_parse_eq (data : Bytes) : ∃ children, parse data = ⟨data,
    ({ kind := "file", start := 0, stop := data.length, children } ::
      (spans 0 0 data).map lineOf).toArray⟩ := by
  obtain ⟨children, same⟩ := @foldl_grow
    { source := data, nodes := #[{ kind := "file", start := 0, stop := 0 }] } _ _ rfl (spans 0 0 data)
  refine ⟨children, ?_⟩
  rw [parse, same]
  simp [Tree.stretch]

/-- The nodes of the lines of a file. -/
def nodesOf (data : Bytes) : List Node :=
  (parse data).nodes.toList.filter (·.kind = "line")

theorem nodesOf_eq (data : Bytes) : nodesOf data = (spans 0 0 data).map lineOf := by
  obtain ⟨children, same⟩ := exists_parse_eq data
  have all : ∀ node ∈ (spans 0 0 data).map lineOf, node.kind = "line" := forall_mem_map.mpr fun _ _ => rfl
  simpa [nodesOf, same] using all

theorem text_lineOf (data : Bytes) (span : Nat × Nat) :
    (parse data).text (lineOf span) = (data.take span.2).drop span.1 := by
  obtain ⟨children, same⟩ := exists_parse_eq data
  have clamp : ∀ place : Nat, Signed.clamp data.length place = min place data.length := fun place => by
    rw [Signed.clamp, if_neg (by omega), Int.toNat_natCast]
  rw [Tree.text, same, Signed.slice]
  dsimp only [lineOf]
  rw [clamp, clamp, ← take_eq_take_min]
  rcases Nat.le_total span.1 data.length with inside | beyond
  · rw [Nat.min_eq_left inside]
  · have short := Nat.le_trans (length_take_le' span.2 data) (Nat.le_refl _)
    rw [Nat.min_eq_right beyond, drop_of_length_le short, drop_of_length_le (short.trans beyond)]

/-- The lines of a file are found in the same places wherever they are looked for, and nothing is lost.
The offsets of lines begin with 0 and become more, and after 0 they are those behind a newline. Those in
the file are where the nodes of its lines start, and the removal of lines cuts the file there and nowhere
else. No line holds a newline; with newlines between them, and one at the end if the file has one there,
the lines are the file. -/
theorem lines_agree (data : Bytes) :
    let starts := (nodesOf data).map Node.start
    let texts := (nodesOf data).map (parse data).text
    starts = (data.lineStarts.filter (· < data.length)).map Nat.cast ∧
      data.lineStarts.head? = some 0 ∧ data.lineStarts.Pairwise (· < ·) ∧
      (∀ place, place + 1 ∈ data.lineStarts ↔ data[place]? = some Bytes.newline) ∧
      (∀ project path file passIndex position, Listing.get? project.files path = some file →
        file.data = data →
        ∃ candidates, Pass.removeLines.proposals project (some path) passIndex position = .ok candidates ∧
          candidates.map Candidate.splices =
            (Chunk.plan starts.length (Pass.chunkAt position)).map fun chunk =>
              let range := Chunk.range starts data.length chunk
              [{ start := range.1, stop := range.2 }]) ∧
      (∀ text ∈ texts, Bytes.newline ∉ text) ∧
      [Bytes.newline].intercalate texts ++
        (if data.getLast? = some Bytes.newline then [Bytes.newline] else []) = data := by
  have found := @spans_starts data 0 0 (Nat.le_refl 0)
  rw [Nat.zero_add] at found
  have starts : (nodesOf data).map Node.start = (data.lineStarts.filter (· < data.length)).map Nat.cast := by
    rw [nodesOf_eq, Bytes.lineStarts, ← found, map_map, map_map]
    rfl
  have texts : (nodesOf data).map (parse data).text =
      (spans 0 0 data).map fun span => (data.take span.2).drop span.1 := by
    rw [nodesOf_eq, map_map]
    exact map_congr_left fun span _ => text_lineOf data span
  obtain ⟨closed, whole⟩ := @spans_texts data [] data 0 rfl not_mem_nil
  dsimp only
  rw [texts]
  refine ⟨starts, rfl, Pass.pairwise_lineStarts data, fun place => ?_, ?_, closed, ?_⟩
  · simp [Bytes.lineStarts, ← Bytes.mem_breaks 0 place data]
  · rintro project path file passIndex position tracked rfl
    rw [starts, length_map]
    exact Pass.exists_lineRemovals tracked passIndex position
  · generalize (spans 0 0 data).map _ = texts at whole
    rcases eq_nil_or_concat texts with rfl | ⟨front, last, rfl⟩
    · have none : data = [] := (append_eq_nil_iff.mp whole.symm).1
      simp [none]
    · rw [concat_eq_append, flatMap_append, flatMap_singleton, ← append_assoc, nil_append] at whole
      rw [concat_eq_append, Bytes.intercalate_concat]
      have some : data ≠ [] := by
        rintro rfl
        simp at whole
      by_cases ends : data.getLast? = Option.some Bytes.newline
      · simpa [some, ends] using whole
      · rw [if_neg ends, append_nil]
        rw [if_neg (by simp [some, ends])] at whole
        exact append_cancel_right whole

end Grammar.Lines
end Whittle
