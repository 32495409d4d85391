import Whittle.Sorting.Search

/-!
Merging two neighbouring runs; of equal items those of the first run come first. Items
are taken one by one until one run has won often enough in a row; then leaps over
several items are tried as long as they pay. How often a run must win is the patience:
leaps that pay lower it, and leaps that do not raise it.
-/

namespace Whittle.Sorting

variable {α ε : Type} (below : α → α → Except ε Bool)

/-- The patience at first, and the length from which on a leap pays. -/
def leapLength : Nat := 7

/-- How items are taken: one by one, with how often either run has won in a row, or in leaps. -/
inductive Manner where
  | oneByOne (lefts rights : Nat)
  | leaping

/-- Whether an item of one run is below an item of another; a missing item is below none. -/
def isBelowAt (items : Array α) (index : Nat) (others : Array α) (other : Nat) : Except ε Bool :=
  match items[index]?, others[other]? with
  | some item, some one => below item one
  | _, _ => .ok false

/-! ### From the front -/

/-- Two runs merged from their fronts: how many items of each are taken, and all that are taken. -/
structure Front (α : Type) where
  left : Array α
  right : Array α
  fromLeft : Nat := 0
  fromRight : Nat := 0
  merged : Array α := #[]
  patience : Nat

namespace Front

def leftCount (front : Front α) : Nat :=
  front.left.size - front.fromLeft

def rightCount (front : Front α) : Nat :=
  front.right.size - front.fromRight

def takeLeft (front : Front α) (count : Nat) : Front α :=
  let stop := front.fromLeft + count
  { front with
    fromLeft := stop, merged := front.merged ++ front.left.extract front.fromLeft stop }

def takeRight (front : Front α) (count : Nat) : Front α :=
  let stop := front.fromRight + count
  { front with
    fromRight := stop, merged := front.merged ++ front.right.extract front.fromRight stop }

/-- Merges until the second run is used up or the first has at most one item left. -/
def advance (fuel : Nat) (manner : Manner) (front : Front α) : Except ε (Front α) := do
  match fuel, manner with
  | 0, _ => return front
  | fuel + 1, .oneByOne lefts rights =>
    if ← isBelowAt below front.right front.fromRight front.left front.fromLeft then
      let after := front.takeRight 1
      if after.rightCount = 0 then return after
      if after.patience ≤ rights + 1 then
        advance fuel .leaping { after with patience := after.patience + 1 }
      else advance fuel (.oneByOne 0 (rights + 1)) after
    else
      let after := front.takeLeft 1
      if after.leftCount ≤ 1 then return after
      if after.patience ≤ lefts + 1 then
        advance fuel .leaping { after with patience := after.patience + 1 }
      else advance fuel (.oneByOne (lefts + 1) 0) after
  | fuel + 1, .leaping =>
    let front := { front with patience := max 1 (front.patience - 1) }
    let lefts ← countPassing (fun step =>
      not <$> isBelowAt below front.right front.fromRight front.left (front.fromLeft + step))
      front.leftCount 0
    let front := front.takeLeft lefts
    if front.leftCount ≤ 1 then return front
    let front := front.takeRight 1
    if front.rightCount = 0 then return front
    let rights ← countPassing (fun step =>
      isBelowAt below front.right (front.fromRight + step) front.left front.fromLeft)
      front.rightCount 0
    let front := front.takeRight rights
    if front.rightCount = 0 then return front
    let front := front.takeLeft 1
    if front.leftCount ≤ 1 then return front
    if leapLength ≤ lefts || leapLength ≤ rights then advance fuel .leaping front
    else advance fuel (.oneByOne 0 0) { front with patience := front.patience + 1 }

/-- All items: those that are taken, the rest of the second run, and the last of the first. -/
def finish (front : Front α) : Array α :=
  front.merged ++ front.right.extract front.fromRight front.right.size
    ++ front.left.extract front.fromLeft front.left.size

end Front

/-- Merges runs of which the first item of the second comes first and the last of the first last. -/
def mergeFront (patience : Nat) (left right : Array α) : Except ε (Array α × Nat) := do
  let begun := ({ left, right, patience } : Front α).takeRight 1
  if begun.rightCount = 0 || begun.leftCount ≤ 1 then return (begun.finish, patience)
  let front ← begun.advance below (left.size + right.size) (.oneByOne 0 0)
  return (front.finish, front.patience)

/-! ### From the back -/

/-- Two runs merged from their backs: how many items of each are left, and all that are taken. -/
structure Back (α : Type) where
  left : Array α
  right : Array α
  leftCount : Nat
  rightCount : Nat
  merged : List α := []
  patience : Nat

namespace Back

def takeLeft (back : Back α) (count : Nat) : Back α :=
  let start := back.leftCount - count
  { back with
    leftCount := start, merged := (back.left.extract start back.leftCount).toList ++ back.merged }

def takeRight (back : Back α) (count : Nat) : Back α :=
  let start := back.rightCount - count
  { back with
    rightCount := start
    merged := (back.right.extract start back.rightCount).toList ++ back.merged }

/-- Merges until the first run is used up or the second has at most one item left. -/
def advance (fuel : Nat) (manner : Manner) (back : Back α) : Except ε (Back α) := do
  match fuel, manner with
  | 0, _ => return back
  | fuel + 1, .oneByOne lefts rights =>
    if ← isBelowAt below back.right (back.rightCount - 1) back.left (back.leftCount - 1) then
      let after := back.takeLeft 1
      if after.leftCount = 0 then return after
      if after.patience ≤ lefts + 1 then
        advance fuel .leaping { after with patience := after.patience + 1 }
      else advance fuel (.oneByOne (lefts + 1) 0) after
    else
      let after := back.takeRight 1
      if after.rightCount ≤ 1 then return after
      if after.patience ≤ rights + 1 then
        advance fuel .leaping { after with patience := after.patience + 1 }
      else advance fuel (.oneByOne 0 (rights + 1)) after
  | fuel + 1, .leaping =>
    let back := { back with patience := max 1 (back.patience - 1) }
    let staying ← countPassing (fun index =>
      not <$> isBelowAt below back.right (back.rightCount - 1) back.left index)
      back.leftCount (back.leftCount - 1)
    let lefts := back.leftCount - staying
    let back := back.takeLeft lefts
    if back.leftCount = 0 then return back
    let back := back.takeRight 1
    if back.rightCount ≤ 1 then return back
    let staying ← countPassing (fun index =>
      isBelowAt below back.right index back.left (back.leftCount - 1))
      back.rightCount (back.rightCount - 1)
    let rights := back.rightCount - staying
    let back := back.takeRight rights
    if back.rightCount ≤ 1 then return back
    let back := back.takeLeft 1
    if back.leftCount = 0 then return back
    if leapLength ≤ lefts || leapLength ≤ rights then advance fuel .leaping back
    else advance fuel (.oneByOne 0 0) { back with patience := back.patience + 1 }

/-- All items: the first of the second run, the rest of the first, and those that are taken. -/
def finish (back : Back α) : Array α :=
  back.right.extract 0 back.rightCount ++ back.left.extract 0 back.leftCount
    ++ back.merged.toArray

end Back

/-- Merges runs of which the last item of the first comes last and the first of the second first. -/
def mergeBack (patience : Nat) (left right : Array α) : Except ε (Array α × Nat) := do
  let whole : Back α :=
    { left, right, leftCount := left.size, rightCount := right.size, patience }
  let begun := whole.takeLeft 1
  if begun.leftCount = 0 || begun.rightCount ≤ 1 then return (begun.finish, patience)
  let back ← begun.advance below (left.size + right.size) (.oneByOne 0 0)
  return (back.finish, back.patience)

/-! ### Both -/

/-- Merges two runs: what is in its place already stays there, and of the rest the shorter run tells
from which side. -/
def merge (patience : Nat) (left right : Array α) : Except ε (Array α × Nat) := do
  let first ← countPassing (fun index => not <$> isBelowAt below right 0 left index) left.size 0
  if left.size ≤ first then return (left ++ right, patience)
  let last ← countPassing (fun index => isBelowAt below right index left (left.size - 1))
    right.size (right.size - 1)
  if last = 0 then return (left ++ right, patience)
  let lefts := left.extract first left.size
  let rights := right.extract 0 last
  let (middle, patience) ←
    if lefts.size ≤ rights.size then mergeFront below patience lefts rights
    else mergeBack below patience lefts rights
  return (left.extract 0 first ++ middle ++ right.extract last right.size, patience)

end Whittle.Sorting
