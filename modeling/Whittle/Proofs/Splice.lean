import Mathlib.Algebra.Order.BigOperators.Group.List
import Mathlib.Algebra.Order.Ring.Nat
import Whittle.Project

/-!
Splices that lie in a buffer, in order and apart, can all be applied, and the buffer grows by what
each of them adds. Applying them is the same as replacing their ranges one at a time, from the last
to the first, and a byte that lies in none of them is moved by what those before it add
(`Candidate.spliceInto_replaces`).
-/

namespace Whittle

open List

variable {splice : Splice} {size index : Nat} {buffer : Bytes}

/-- The splices lie in a buffer of so many bytes, in order and apart. -/
structure Splice.InOrder (splices : List Splice) (size : Nat) : Prop where
  apart : splices.Pairwise fun left right => left.stop ≤ right.start
  inside : ∀ splice ∈ splices, 0 ≤ splice.start ∧ splice.start ≤ splice.stop ∧ splice.stop ≤ size

namespace Splice

theorem InOrder.singleton (start : 0 ≤ splice.start)
    (proper : splice.start ≤ splice.stop) (stop : splice.stop ≤ size) : InOrder [splice] size :=
  ⟨pairwise_singleton _ _, by simpa using ⟨start, proper, stop⟩⟩

variable {splices : List Splice} {changed : Bytes} {position : Nat}

theorem InOrder.tail (inOrder : InOrder (splice :: splices) size) : InOrder splices size :=
  ⟨inOrder.apart.of_cons, fun other member => inOrder.inside other (mem_cons_of_mem _ member)⟩

/-- The first of some splices leaves the others ahead, and what it does to the rest of a buffer is
done before what they do. -/
theorem InOrder.first (inOrder : InOrder (splice :: splices) buffer.length)
    (ahead : ∀ other ∈ splice :: splices, (position : Int) ≤ other.start) :
    ∃ start stop : Nat, splice.start = start ∧ splice.stop = stop ∧ position ≤ start ∧ start ≤ stop ∧
      stop ≤ buffer.length ∧ (∀ other ∈ splices, (stop : Int) ≤ other.start) ∧
      applyFrom buffer.length position (buffer.drop position) (splice :: splices) =
        (applyFrom buffer.length stop (buffer.drop stop) splices).map fun tail =>
          (buffer.drop position).take (start - position) ++ splice.replacement ++ tail := by
  obtain ⟨-, forward, stops⟩ := inOrder.inside splice mem_cons_self
  have behind := ahead splice mem_cons_self
  obtain ⟨start, starts⟩ := Int.eq_ofNat_of_zero_le (show 0 ≤ splice.start by omega)
  obtain ⟨stop, ends⟩ := Int.eq_ofNat_of_zero_le (show 0 ≤ splice.stop by omega)
  have later := (pairwise_cons.mp inOrder.apart).1
  have fits : splice.Fits position buffer.length := ⟨behind, forward, stops⟩
  have gone : position + ((stop : Int) - position).toNat = stop := by omega
  have kept : ((start : Int) - position).toNat = start - position := by omega
  refine ⟨start, stop, starts, ends, by omega, by omega, by omega, ends ▸ later, ?_⟩
  rw [applyFrom, if_pos fits, starts, ends, drop_drop, gone, kept, Int.toNat_natCast]

def gain (splices : List Splice) : Int :=
  splices.foldr (fun splice rest => splice.delta + rest) 0

theorem gain_cons : gain (splice :: splices) = splice.delta + gain splices :=
  rfl

theorem InOrder.applyFrom (inOrder : InOrder splices buffer.length) (within : position ≤ buffer.length)
    (ahead : ∀ splice ∈ splices, (position : Int) ≤ splice.start) :
    ∃ changed, applyFrom buffer.length position (buffer.drop position) splices = .ok changed ∧
      (position + changed.length : Int) = buffer.length + gain splices := by
  induction splices generalizing position with
  | nil =>
    refine ⟨_, rfl, ?_⟩
    simp only [length_drop, gain, foldr_nil]
    omega
  | cons splice others ih =>
    obtain ⟨start, stop, starts, ends, behind, forward, stops, later, applies⟩ := inOrder.first ahead
    obtain ⟨tail, applied, length⟩ := ih inOrder.tail stops later
    refine ⟨_, by rw [applies, applied]; rfl, ?_⟩
    simp only [length_append, length_take, length_drop, gain_cons, delta, starts, ends]
    omega

theorem gain_neg (nonnil : splices ≠ []) (shrink : ∀ splice ∈ splices, splice.delta < 0) :
    gain splices < 0 := by
  induction splices with
  | nil => exact absurd rfl nonnil
  | cons splice others ih =>
    have here := shrink splice mem_cons_self
    rw [gain_cons]
    by_cases last : others = []
    · simpa [last, gain] using here
    · have := ih last (forall_mem_cons.mp shrink).2
      omega

/-- Splices that each take more than they put make a buffer shorter. -/
theorem InOrder.applyAll (inOrder : InOrder splices buffer.length) (nonnil : splices ≠ [])
    (shrink : ∀ splice ∈ splices, splice.delta < 0) :
    ∃ changed, applyAll splices buffer = .ok changed ∧ changed.length < buffer.length := by
  obtain ⟨changed, applied, length⟩ := inOrder.applyFrom (Nat.zero_le _)
    fun splice member => (inOrder.inside splice member).1
  have := gain_neg nonnil shrink
  exact ⟨changed, applied, by omega⟩

/-! ### One at a time -/

def replaceIn (splice : Splice) (buffer : Bytes) : Bytes :=
  buffer.take splice.start.toNat ++ splice.replacement ++ buffer.drop splice.stop.toNat

/-- A byte lies in none of the ranges. -/
def Spares (splices : List Splice) (index : Nat) : Prop :=
  ∀ splice ∈ splices, (index : Int) < splice.start ∨ splice.stop ≤ (index : Int)

/-- Where a byte that is spared comes to stand: the splices before it move it by what they add. -/
def placeOf (splices : List Splice) (index : Nat) : Int :=
  index + gain (splices.filter fun splice => splice.stop ≤ (index : Int))

theorem placeOf_cons_of_le (behind : splice.stop ≤ (index : Int)) :
    placeOf (splice :: splices) index = placeOf splices index + splice.delta := by
  rw [placeOf, placeOf, filter_cons_of_pos (by simpa using behind), gain_cons]
  omega

/-- A byte before the first of some splices stays where it is. -/
theorem InOrder.placeOf_of_lt (inOrder : InOrder (splice :: splices) size)
    (before : (index : Int) < splice.start) : placeOf (splice :: splices) index = index := by
  have none : (splice :: splices).filter (fun splice => splice.stop ≤ (index : Int)) = [] := by
    refine filter_eq_nil_iff.mpr fun other member => ?_
    have own := (inOrder.inside splice mem_cons_self).2.1
    have inside := (inOrder.inside other member).2.1
    simp only [decide_eq_true_eq]
    rcases mem_cons.mp member with rfl | member
    · omega
    · have := (pairwise_cons.mp inOrder.apart).1 other member
      omega
  simp [placeOf, none, gain]

section

variable (inOrder : InOrder splices buffer.length)
  (ahead : ∀ splice ∈ splices, (position : Int) ≤ splice.start)

include inOrder ahead

theorem InOrder.foldr_replaceIn
    (applied : Splice.applyFrom buffer.length position (buffer.drop position) splices = .ok changed) :
    splices.foldr replaceIn buffer = buffer.take position ++ changed := by
  induction splices generalizing position changed with
  | nil =>
    cases applied
    exact (take_append_drop position buffer).symm
  | cons splice others ih =>
    obtain ⟨start, stop, starts, ends, behind, forward, stops, later, applies⟩ := inOrder.first ahead
    obtain ⟨tail, rest, -⟩ := inOrder.tail.applyFrom stops later
    rw [applies, rest] at applied
    cases applied
    have short : (buffer.take stop).length = stop := length_take_of_le stops
    have kept : (buffer.take stop ++ tail).take start =
        buffer.take position ++ (buffer.drop position).take (start - position) := by
      rw [take_append_of_le_length (by omega), take_take, Nat.min_eq_left forward,
        ← take_add]
      congr 1
      omega
    rw [foldr_cons, ih inOrder.tail later rest, replaceIn, starts, ends, Int.toNat_natCast,
      Int.toNat_natCast, kept, drop_left' short]
    simp only [append_assoc]

theorem InOrder.getElem?_placeOf (spares : Spares splices index) (behind : position ≤ index)
    (applied : Splice.applyFrom buffer.length position (buffer.drop position) splices = .ok changed) :
    ∃ place : Nat, placeOf splices index = position + place ∧ changed[place]? = buffer[index]? := by
  induction splices generalizing position changed with
  | nil =>
    cases applied
    refine ⟨index - position, ?_, ?_⟩
    · simp only [placeOf, filter_nil, gain, foldr_nil]
      omega
    · rw [getElem?_drop]
      congr 1
      omega
  | cons splice others ih =>
    obtain ⟨start, stop, starts, ends, before, forward, stops, later, applies⟩ := inOrder.first ahead
    obtain ⟨tail, rest, -⟩ := inOrder.tail.applyFrom stops later
    rw [applies, rest] at applied
    obtain rfl : _ = changed := Except.ok.inj applied
    obtain ⟨here, spares⟩ := forall_mem_cons.mp spares
    have length : ((buffer.drop position).take (start - position)).length = start - position := by
      rw [length_take, length_drop]
      omega
    rcases here with inside | past
    · refine ⟨index - position, ?_, ?_⟩
      · rw [inOrder.placeOf_of_lt (by omega)]
        omega
      · dsimp only
        rw [append_assoc, getElem?_append_left (by omega), getElem?_take_of_lt (by omega),
          getElem?_drop]
        congr 1
        omega
    · obtain ⟨place, found, same⟩ := ih inOrder.tail later spares (by omega) rest
      refine ⟨start - position + splice.replacement.length + place, ?_, ?_⟩
      · rw [placeOf_cons_of_le (by omega), found, delta, starts, ends]
        omega
      · dsimp only
        rw [getElem?_append_right (by rw [length_append, length]; omega), length_append, length,
          Nat.add_sub_cancel_left, same]

end

theorem InOrder.le_placeOf {index : Nat} {position : Int} (inOrder : InOrder splices size)
    (ahead : ∀ splice ∈ splices, position ≤ splice.start) (spares : Spares splices index)
    (behind : position ≤ index) : position ≤ placeOf splices index := by
  induction splices generalizing position with
  | nil => simpa [placeOf, gain] using behind
  | cons splice others ih =>
    have before := ahead splice mem_cons_self
    have later := (pairwise_cons.mp inOrder.apart).1
    obtain ⟨here, spares⟩ := forall_mem_cons.mp spares
    rcases here with inside | past
    · rwa [inOrder.placeOf_of_lt inside]
    · have := ih inOrder.tail later spares past
      rw [placeOf_cons_of_le past, delta]
      omega

theorem InOrder.placeOf_lt {index other : Nat} (inOrder : InOrder splices size)
    (spares : Spares splices index) (spares' : Spares splices other) (less : index < other) :
    placeOf splices index < placeOf splices other := by
  induction splices with
  | nil => simpa [placeOf, gain] using less
  | cons splice others ih =>
    have later := (pairwise_cons.mp inOrder.apart).1
    obtain ⟨here, spares⟩ := forall_mem_cons.mp spares
    obtain ⟨here', spares'⟩ := forall_mem_cons.mp spares'
    rcases here' with inside' | past'
    · rw [inOrder.placeOf_of_lt (by omega), inOrder.placeOf_of_lt inside']
      omega
    · rw [placeOf_cons_of_le past']
      rcases here with inside | past
      · have := inOrder.tail.le_placeOf later spares' past'
        rw [inOrder.placeOf_of_lt inside, delta]
        omega
      · have := ih inOrder.tail spares spares'
        rw [placeOf_cons_of_le past]
        omega

/-! ### Splices that do not fit -/

/-- Each splice begins behind the one before it, or behind a position if it is the first, and ends in a
buffer of so many bytes. -/
def Follow (size : Nat) (position : Int) (splices : List Splice) : Prop :=
  ∀ before splice after, splices = before ++ splice :: after →
    (before.getLast?.map stop).getD position ≤ splice.start ∧ splice.start ≤ splice.stop ∧
      splice.stop ≤ (size : Int)

theorem follow_cons_iff {position : Int} : Follow size position (splice :: splices) ↔
    (position ≤ splice.start ∧ splice.start ≤ splice.stop ∧ splice.stop ≤ (size : Int)) ∧
      Follow size splice.stop splices := by
  constructor
  · refine fun follow => ⟨follow [] splice splices rfl, fun before other after same => ?_⟩
    have fits := follow (splice :: before) other after (congrArg (splice :: ·) same)
    rwa [getLast?_cons, Option.map_some, Option.getD_some, ← Option.getD_map stop] at fits
  · rintro ⟨fits, follow⟩ before other after same
    cases before with
    | nil =>
      cases same
      exact fits
    | cons _ before =>
      cases same
      rw [getLast?_cons, Option.map_some, Option.getD_some, ← Option.getD_map stop]
      exact follow before other after rfl

theorem Follow.inOrder {position : Int} (follow : Follow size position splices) (start : 0 ≤ position) :
    InOrder splices size ∧ ∀ splice ∈ splices, position ≤ splice.start := by
  induction splices generalizing position with
  | nil => exact ⟨⟨.nil, by simp⟩, by simp⟩
  | cons splice others ih =>
    obtain ⟨fits, follow⟩ := follow_cons_iff.mp follow
    obtain ⟨inOrder, ahead⟩ := ih follow (by omega)
    refine ⟨⟨pairwise_cons.mpr ⟨ahead, inOrder.apart⟩, forall_mem_cons.mpr ⟨?_, inOrder.inside⟩⟩,
      forall_mem_cons.mpr ⟨fits.1, fun other member => ?_⟩⟩
    · exact ⟨by omega, fits.2⟩
    · have := ahead other member
      omega

theorem follow_of_applyFrom {rest : Bytes}
    (applied : applyFrom size position rest splices = .ok changed) : Follow size position splices := by
  induction splices generalizing position rest changed with
  | nil => simp [Follow]
  | cons splice others ih =>
    rw [applyFrom] at applied
    split at applied
    · next fits =>
      have stops : ((splice.stop.toNat : Nat) : Int) = splice.stop := by
        have := fits.1
        have := fits.2.1
        omega
      refine follow_cons_iff.mpr ⟨fits, stops ▸ ?_⟩
      cases tail : applyFrom size splice.stop.toNat (rest.drop (splice.stop.toNat - position)) others with
      | error _ => simp [tail, Except.map] at applied
      | ok _ => exact ih tail
    · cases applied

end Splice

theorem Bytes.total_map_lt {α : Type} {items : List α} {small large : α → Nat} (item : α)
    (bounded : ∀ item ∈ items, small item ≤ large item) (member : item ∈ items)
    (smaller : small item < large item) : total (items.map small) < total (items.map large) :=
  sum_lt_sum small large bounded ⟨item, member, smaller⟩

/-- Splices are applied all at once, or not at all because one of them ends before it begins, ends
beyond the file, or begins before the end of the one before it. What comes of it is what comes of
replacing their ranges one at a time, from the last to the first: the file grows by what each of them
adds, and every byte in none of the ranges is kept, in order. -/
theorem Candidate.spliceInto_replaces (candidate : Candidate) (data : Bytes) :
    ((∃ splice, candidate.spliceInto data = .error (.misfit splice data.length)) ↔
      ∃ before splice after, candidate.splices = before ++ splice :: after ∧
        (splice.stop < splice.start ∨ (data.length : Int) < splice.stop ∨
          splice.start < (before.getLast?.map Splice.stop).getD 0)) ∧
    ((∃ splice, candidate.spliceInto data = .error (.misfit splice data.length)) ∨
      ∃ changed, candidate.spliceInto data = .ok changed ∧
        changed = candidate.splices.foldr Splice.replaceIn data ∧
        (changed.length : Int) = data.length + Splice.gain candidate.splices ∧
        (∀ index, Splice.Spares candidate.splices index → ∃ place : Nat,
          Splice.placeOf candidate.splices index = place ∧ changed[place]? = data[index]?) ∧
        ∀ index other, Splice.Spares candidate.splices index → Splice.Spares candidate.splices other →
          index < other →
            Splice.placeOf candidate.splices index < Splice.placeOf candidate.splices other) := by
  have misfit : (∃ before splice after, candidate.splices = before ++ splice :: after ∧
      (splice.stop < splice.start ∨ (data.length : Int) < splice.stop ∨
        splice.start < (before.getLast?.map Splice.stop).getD 0)) ↔
      ¬ Splice.Follow data.length 0 candidate.splices := by
    simp only [Splice.Follow, not_forall, exists_prop]
    refine exists₃_congr fun before splice after => and_congr_right fun _ => ?_
    omega
  rw [misfit, Candidate.spliceInto, Splice.applyAll]
  cases applied : Splice.applyFrom data.length 0 data candidate.splices with
  | error splice =>
    refine ⟨iff_of_true ⟨splice, rfl⟩ fun follow => ?_, .inl ⟨splice, rfl⟩⟩
    obtain ⟨inOrder, ahead⟩ := follow.inOrder (Int.le_refl 0)
    obtain ⟨_, done, -⟩ := inOrder.applyFrom (Nat.zero_le _) ahead
    cases applied.symm.trans done
  | ok changed =>
    have follow := Splice.follow_of_applyFrom applied
    obtain ⟨inOrder, ahead⟩ := follow.inOrder (Int.le_refl 0)
    obtain ⟨_, done, length⟩ := inOrder.applyFrom (Nat.zero_le _) ahead
    cases applied.symm.trans done
    refine ⟨iff_of_false (by rintro ⟨_, ⟨⟩⟩) (not_not_intro follow), .inr ⟨changed, rfl, ?_, ?_, ?_, ?_⟩⟩
    · exact (inOrder.foldr_replaceIn ahead applied).symm
    · simpa using length
    · intro index spares
      obtain ⟨place, found, same⟩ := inOrder.getElem?_placeOf ahead spares (Nat.zero_le _) applied
      exact ⟨place, by simpa using found, same⟩
    · exact fun _ _ => inOrder.placeOf_lt

end Whittle
