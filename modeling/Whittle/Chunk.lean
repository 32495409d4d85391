/-!
Chunk plans: the whole run of items first, then halves, quarters and so on down
to single items. A chunk is a pair of its size and its offset in the run.
-/

namespace Whittle.Chunk

/-- The chunks of one size from `offset` on, the last of which may reach past the run. -/
def sweep (total size offset : Nat) : List (Nat × Nat) :=
  if _ : offset < total ∧ 0 < size then
    (size, offset) :: sweep total size (offset + size)
  else
    []
termination_by total - offset

/-- The chunks from `offset` at one size, followed by those of every smaller size. -/
def descend (total size offset : Nat) : List (Nat × Nat) :=
  sweep total size offset ++ if _ : 1 < size then descend total ((size + 1) / 2) 0 else []
termination_by size

/-- Where a plan over `total` items begins: at the whole run, or at a given place clamped to it. -/
def origin (total : Nat) : Option (Int × Int) → Nat × Nat
  | none => (total, 0)
  | some (size, offset) => ((max 1 (min size total)).toNat, (max 0 offset).toNat)

/-- The chunks over `total` items, from `start` on. -/
def plan (total : Nat) (start : Option (Int × Int)) : List (Nat × Nat) :=
  if total = 0 then []
  else descend total (origin total start).1 (origin total start).2

def descendUpTo (limit total size offset : Nat) : List (Nat × Nat) :=
  match limit with
  | 0 => []
  | left + 1 =>
    if offset < total then
      (size, offset) :: descendUpTo left total size (offset + size)
    else if 1 < size then
      (((size + 1) / 2), 0) :: descendUpTo left total ((size + 1) / 2) ((size + 1) / 2)
    else
      []

/-- The first `limit` chunks of the plan, without building the rest. -/
def planUpTo (limit total : Nat) (start : Option (Int × Int)) : List (Nat × Nat) :=
  if total = 0 then []
  else descendUpTo limit total (origin total start).1 (origin total start).2

end Whittle.Chunk
