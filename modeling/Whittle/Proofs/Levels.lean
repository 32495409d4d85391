import Mathlib.Algebra.Order.Floor.Div
import Mathlib.Data.Nat.Log
import Mathlib.GroupTheory.GroupAction.Ring
import Whittle.Proofs.Continuation

/-!
The levels of a plan. A plan goes through the sizes that a run has after so many halvings, each
rounded up, down to one, and at each size through the whole run from its beginning. The sizes have a
closed form (`descend_eq`), and so have the chunks of one size (`sweep_eq`). A plan that begins
elsewhere differs from it in what comes before the next halving only.
-/

namespace Whittle.Chunk

open List

variable {total size offset : Nat} {chunk : Nat × Nat}

/-- The chunks of one size, side by side from the beginning of the run. -/
def row (total size : Nat) : List (Nat × Nat) :=
  (range (total ⌈/⌉ size)).map fun number => (size, number * size)

/-- The items of a chunk; the last chunk of a row may reach past the run. -/
def items (total : Nat) (chunk : Nat × Nat) : List Nat :=
  range' chunk.2 (min (chunk.2 + chunk.1) total - chunk.2)

theorem sweep_eq (positive : 0 < size) (offset : Nat) : sweep total size offset =
    (range ((total - offset) ⌈/⌉ size)).map fun number => (size, offset + number * size) := by
  fun_induction sweep total size offset with
  | case1 offset inside ih =>
    have more : (total - offset) ⌈/⌉ size = (total - (offset + size)) ⌈/⌉ size + 1 := by
      refine eq_of_forall_ge_iff fun bound => ?_
      cases bound with
      | zero =>
        rw [ceilDiv_le_iff_le_mul positive]
        omega
      | succ bound =>
        rw [Nat.add_le_add_iff_right, ceilDiv_le_iff_le_mul positive, ceilDiv_le_iff_le_mul positive,
          Nat.mul_succ]
        omega
    rw [more, range_succ_eq_map, map_cons, map_map, ih, Nat.zero_mul, Nat.add_zero]
    refine congrArg _ (map_congr_left fun number _ => ?_)
    simp only [Function.comp, Nat.succ_mul, Prod.mk.injEq, true_and]
    omega
  | case2 offset outside =>
    rw [Nat.sub_eq_zero_of_le (by omega), zero_ceilDiv]
    rfl

theorem sweep_zero (positive : 0 < size) : sweep total size 0 = row total size := by
  simp [sweep_eq positive, row]

theorem mem_row (positive : 0 < size) : (size, offset) ∈ row total size ↔ size ∣ offset ∧ offset < total := by
  have inside : ∀ number, number < total ⌈/⌉ size ↔ number * size < total := fun number => by
    rw [← Nat.not_le, ceilDiv_le_iff_le_mul positive, Nat.mul_comm, Nat.not_le]
  simp only [row, mem_map, mem_range, Prod.mk.injEq, true_and]
  constructor
  · rintro ⟨number, less, rfl⟩
    exact ⟨Nat.dvd_mul_left _ _, (inside number).mp less⟩
  · rintro ⟨⟨number, rfl⟩, less⟩
    rw [Nat.mul_comm] at less ⊢
    exact ⟨number, (inside number).mpr less, rfl⟩

/-- The chunks of one size from some offset on hold the items from there on, one after the other. -/
theorem flatMap_items_sweep (positive : 0 < size) (offset : Nat) :
    (sweep total size offset).flatMap (items total) = range' offset (total - offset) := by
  fun_induction sweep total size offset with
  | case1 offset inside ih =>
    rw [flatMap_cons, ih, items]
    rcases Nat.le_total total (offset + size) with last | further
    · simp [Nat.min_eq_right last, Nat.sub_eq_zero_of_le last]
    · rw [Nat.min_eq_left further, Nat.add_sub_cancel_left,
        show total - offset = size + (total - (offset + size)) by omega,
        ← range'_append_1]
  | case2 offset outside => simp [Nat.sub_eq_zero_of_le (show total ≤ offset by omega)]

theorem ceilDiv_pow_succ_le_iff {depth bound : Nat} :
    size ⌈/⌉ 2 ^ (depth + 1) ≤ bound ↔ size ⌈/⌉ 2 ^ depth ≤ 2 * bound := by
  rw [ceilDiv_le_iff_le_mul (Nat.two_pow_pos _), ceilDiv_le_iff_le_mul (Nat.two_pow_pos _), Nat.pow_succ,
    Nat.mul_assoc]

/-- Halving once more comes to the same as doubling what the run is divided by. -/
theorem half_ceilDiv (size depth : Nat) : ((size + 1) / 2) ⌈/⌉ 2 ^ depth = size ⌈/⌉ 2 ^ (depth + 1) := by
  refine eq_of_forall_ge_iff fun bound => ?_
  rw [ceilDiv_pow_succ_le_iff, ceilDiv_le_iff_le_mul (Nat.two_pow_pos _),
    ceilDiv_le_iff_le_mul (Nat.two_pow_pos _), Nat.mul_left_comm]
  omega

/-- All sizes that a run is halved to, and at each of them the whole run. -/
theorem descend_eq (positive : 0 < size) : descend total size 0 =
    (range (Nat.clog 2 size + 1)).flatMap fun depth => row total (size ⌈/⌉ 2 ^ depth) := by
  induction size using Nat.strongRecOn with
  | ind size ih =>
    rw [descend, range_succ_eq_map, flatMap_cons, pow_zero, ceilDiv_one, sweep_zero positive]
    congr 1
    split
    · next large =>
      rw [ih _ (by omega) (by omega), Nat.clog_of_two_le Nat.one_lt_two large, flatMap_map]
      exact congrArg (flatMap · _) (funext fun depth => congrArg _ (half_ceilDiv size depth))
    · rw [Nat.clog_of_right_le_one (by omega)]
      rfl

theorem ceilDiv_clog (positive : 0 < size) : size ⌈/⌉ 2 ^ Nat.clog 2 size = 1 := by
  refine eq_of_forall_ge_iff fun bound => ?_
  rw [ceilDiv_le_iff_le_mul (Nat.two_pow_pos _)]
  have fits := Nat.le_pow_clog Nat.one_lt_two size
  cases bound with
  | zero => omega
  | succ bound => simpa using Nat.le_trans fits (Nat.le_mul_of_pos_right _ bound.succ_pos)

theorem ceilDiv_lt {depth : Nat} (more : depth < Nat.clog 2 size) :
    size ⌈/⌉ 2 ^ (depth + 1) < size ⌈/⌉ 2 ^ depth := by
  have some : ¬ size ⌈/⌉ 2 ^ depth ≤ 1 := by
    rw [ceilDiv_le_iff_le_mul (Nat.two_pow_pos _), Nat.mul_one, Nat.not_le]
    exact Nat.pow_lt_of_lt_clog more
  have : size ⌈/⌉ 2 ^ (depth + 1) ≤ size ⌈/⌉ 2 ^ depth - 1 := ceilDiv_pow_succ_le_iff.mpr (by omega)
  omega

theorem suffix_descend (positive : 0 < size) : row total 1 <:+ descend total size 0 := by
  rw [descend_eq positive, range_succ, flatMap_append, flatMap_singleton, ceilDiv_clog positive]
  exact suffix_append _ _

theorem size_le_of_mem_descend (member : chunk ∈ descend total size offset) : chunk.1 ≤ size := by
  obtain ⟨before, after, split⟩ := append_of_mem member
  exact (descend_rest split).1

theorem descend_cons (inside : offset < total) (positive : 0 < size) :
    descend total size offset = (size, offset) :: descend total size (offset + size) := by
  rw [descend, sweep, dif_pos ⟨inside, positive⟩, cons_append, ← descend]

/-- Going on chunk by chunk, as long as wanted, follows the plan to its end. -/
theorem descendUpTo_eq (nonempty : 0 < total) (limit : Nat) (positive : 0 < size) (offset : Nat) :
    descendUpTo limit total size offset = (descend total size offset).take limit := by
  induction limit generalizing size offset with
  | zero => rw [descendUpTo, take_zero]
  | succ limit ih =>
    rw [descendUpTo]
    split
    · next inside => rw [ih positive, descend_cons inside positive, take_succ_cons]
    · next outside =>
      rw [descend, sweep, dif_neg fun both => outside both.1, nil_append]
      split
      · next large =>
        have half : 0 < (size + 1) / 2 := by omega
        rw [ih half, descend_cons nonempty half, take_succ_cons, Nat.zero_add]
      · rw [take_nil]

theorem origin_bounds (nonempty : 0 < total) (start : Option (Int × Int)) :
    0 < (origin total start).1 ∧ (origin total start).1 ≤ total := by
  cases start <;> simp only [origin] <;> omega

/-- A plan covers the run at every level and goes on as a rest of itself. Its levels have the sizes of
the run after so many halvings, each rounded up: these begin with the whole run, become less and end
with one. Each level lists the multiples of its size that lie in the run, in order, so that its chunks
hold every item once and the last level holds the items one by one. From any of its chunks on it is the
rest of itself. Wherever else it is to begin, its chunks are neither empty nor larger than the run and
begin in it, and unless it begins with single items it ends with all of them. To go through it chunk by
chunk, however far, never leaves it. -/
theorem plan_covers {total : Nat} (nonempty : 0 < total) :
    (plan total none =
        (range (Nat.clog 2 total + 1)).flatMap fun depth => row total (total ⌈/⌉ 2 ^ depth)) ∧
      total ⌈/⌉ 2 ^ 0 = total ∧ total ⌈/⌉ 2 ^ Nat.clog 2 total = 1 ∧
      (∀ depth < Nat.clog 2 total, total ⌈/⌉ 2 ^ (depth + 1) < total ⌈/⌉ 2 ^ depth) ∧
      (∀ size, 0 < size → (row total size).flatMap (items total) = range total ∧
        ∀ offset, (size, offset) ∈ row total size ↔ size ∣ offset ∧ offset < total) ∧
      row total 1 = (range total).map (1, ·) ∧
      (∀ before chunk after, plan total none = before ++ chunk :: after →
        plan total (some (chunk.1, chunk.2)) = chunk :: after) ∧
      (∀ size offset : Int,
        (∀ chunk ∈ plan total (some (size, offset)), 1 ≤ chunk.1 ∧ chunk.1 ≤ total ∧ chunk.2 < total) ∧
        (max 1 (min size total) ≠ 1 → row total 1 <:+ plan total (some (size, offset)))) ∧
      ∀ limit start, planUpTo limit total start = (plan total start).take limit := by
  have begins : ∀ start, plan total start = descend total (origin total start).1 (origin total start).2 :=
    fun start => if_neg (Nat.ne_of_gt nonempty)
  refine ⟨(begins none).trans (descend_eq nonempty), ceilDiv_one total, ceilDiv_clog nonempty,
    fun depth => ceilDiv_lt, fun size positive => ⟨?_, fun offset => mem_row positive⟩, ?_,
    fun before chunk after => plan_rest, fun size offset => ⟨fun chunk planned => ?_, fun large => ?_⟩,
    fun limit start => ?_⟩
  · rw [← sweep_zero positive, flatMap_items_sweep positive, Nat.sub_zero, range_eq_range']
  · simp [row]
  · obtain ⟨positive, inside⟩ := of_mem_plan planned
    rw [begins] at planned
    exact ⟨positive, (size_le_of_mem_descend planned).trans (origin_bounds nonempty _).2, inside⟩
  · rw [begins, descend, dif_pos (by simp only [origin]; omega)]
    exact (suffix_descend (by simp only [origin]; omega)).trans (suffix_append _ _)
  · rw [begins, planUpTo, if_neg (Nat.ne_of_gt nonempty)]
    exact descendUpTo_eq nonempty limit (origin_bounds nonempty start).1 _

/-- A run of five that is to go on with chunks of nine goes on with all of it, and ends with each alone. -/
theorem plan_covers_five : 0 < 5 ∧ [(1, 0), (1, 1), (1, 2), (1, 3), (1, 4)] <:+ plan 5 (some (9, -2)) := by
  have five : 0 < 5 := by decide
  obtain ⟨-, -, -, -, -, single, -, wherever, -⟩ := plan_covers five
  have ends := (wherever 9 (-2)).2 (by decide)
  rw [single] at ends
  exact ⟨five, ends⟩

end Whittle.Chunk
