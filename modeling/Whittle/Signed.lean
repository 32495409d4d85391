/-!
Positions that may count from the end: `-1` is the last item. A lookup outside
the list fails, a cut outside it is moved to the nearest end.
-/

namespace Whittle.Signed

/-- The index that a position means in a list of `length` items. -/
def index? (length : Nat) (position : Int) : Option Nat :=
  let shifted := if position < 0 then position + length else position
  if 0 ≤ shifted ∧ shifted < length then some shifted.toNat else none

def get? {α : Type} (items : List α) (position : Int) : Option α :=
  (index? items.length position).bind (items[·]?)

/-- The cut point that a position means, moved into the list. -/
def clamp (length : Nat) (position : Int) : Nat :=
  let shifted := if position < 0 then position + length else position
  min shifted.toNat length

def slice {α : Type} (items : List α) (start stop : Int) : List α :=
  let first := clamp items.length start
  (items.take (clamp items.length stop)).drop first

def extract {α : Type} (items : Array α) (start stop : Int) : Array α :=
  items.extract (clamp items.size start) (clamp items.size stop)

theorem toList_extract {α : Type} (items : List α) (start stop : Int) :
    (extract items.toArray start stop).toList = slice items start stop := by
  simp [extract, slice, List.extract_eq_take_drop, List.drop_take]

end Whittle.Signed
