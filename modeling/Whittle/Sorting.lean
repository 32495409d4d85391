import Whittle.Sorting.Merge

/-!
Sorting by an order that may have no answer. The items are cut into runs that are in
order already, a short run is filled up to a least length, and neighbouring runs are
merged in a nearly balanced way. Sorting fails at the first comparison without an
answer, so the comparisons are made in a fixed sequence.
-/

namespace Whittle.Sorting

variable {α ε : Type} (below : α → α → Except ε Bool)

/-! ### Runs -/

/-- Splits off the rest of a run: its items, newest first, and what follows it. -/
def takeRun (descending : Bool) (previous : α) (run : List α) :
    List α → Except ε (List α × List α)
  | [] => .ok (run, [])
  | item :: rest => do
    if (← below item previous) = descending then takeRun descending item (item :: run) rest
    else return (run, item :: rest)

/-- Splits off the run at the head, in ascending order. -/
def nextRun : List α → Except ε (List α × List α)
  | first :: second :: rest => do
    let descending ← below second first
    let (run, others) ← takeRun below descending second [second, first] rest
    return (if descending then run else run.reverse, others)
  | items => .ok (items, [])

/-- Inserts items into a sorted run, one after the other. -/
def insertAll (sorted : Array α) : List α → Except ε (Array α)
  | [] => .ok sorted
  | pivot :: rest => do
    let place ← halve (fun index =>
      match sorted[index]? with
      | some item => not <$> below pivot item
      | none => .ok true) 0 sorted.size
    let inserted := (sorted.extract 0 place).push pivot ++ sorted.extract place sorted.size
    insertAll inserted rest

/-- The least length of a run among `count` items, one more if `lost` says that some were lost in
halving. -/
def leastLength (count : Nat) (lost : Bool) : Nat :=
  if _ : count < 64 then count + (if lost then 1 else 0)
  else leastLength (count / 2) (lost || count % 2 = 1)

/-- The least length of a run: all items if they are few, else half of them, and half of that, until
fewer than 64 are left. -/
def leastRun (count : Nat) : Nat :=
  leastLength count false

/-! ### Merging -/

/-- A run: the number of items before it, its items, and how deep in a balanced tree its border to
the next run lies. -/
structure Run (α : Type) where
  start : Nat
  items : Array α
  depth : Nat := 0

/-- A step of sorting; the state is the patience of merging. -/
abbrev Sorter (ε α : Type) := StateT Nat (Except ε) α

def join (left right : Run α) : Sorter ε (Run α) := fun patience => do
  let (items, patience) ← merge below patience left.items right.items
  return ({ left with items, depth := right.depth }, patience)

/-- The depth of the border between two runs of `total` items: the first binary digit in which their
middles differ, as parts of the whole. `left` and `right` are twice the middles. -/
def borderDepth (fuel left right total : Nat) : Nat :=
  match fuel with
  | 0 => 0
  | fuel + 1 =>
    if total ≤ left then borderDepth fuel (2 * (left - total)) (2 * (right - total)) total + 1
    else if total ≤ right then 1
    else borderDepth fuel (2 * left) (2 * right) total + 1

/-- Merges the last runs while their border lies deeper than a new one. Runs are listed last first.
-/
def mergeDeeper (depth : Nat) (runs : List (Run α)) : Sorter ε (List (Run α)) := do
  match runs with
  | last :: before :: others =>
    if depth < before.depth then
      let joined ← join below before last
      mergeDeeper depth (joined :: others)
    else return runs
  | runs => return runs
termination_by runs.length

/-- Adds a run after the others, which are merged as far as the balance asks for it. -/
def addRun (total : Nat) (run : Array α) (runs : List (Run α)) : Sorter ε (List (Run α)) := do
  match runs with
  | [] => return [{ start := 0, items := run }]
  | last :: _ =>
    let middle := 2 * last.start + last.items.size
    let depth := borderDepth (total + 1) middle (middle + last.items.size + run.size) total
    match ← mergeDeeper below depth runs with
    | [] => return []
    | top :: others =>
      let start := top.start + top.items.size
      return { start, items := run } :: { top with depth } :: others

/-- Cuts items into runs and adds them to those before. -/
def addRuns (total fuel : Nat) (runs : List (Run α)) (items : List α) :
    Sorter ε (List (Run α)) := do
  match fuel, items with
  | 0, _ | _, [] => return runs
  | fuel + 1, items =>
    let (run, rest) ← nextRun below items
    let lacking := leastRun total - run.length
    let filled ← insertAll below run.toArray (rest.take lacking)
    addRuns total fuel (← addRun below total filled runs) (rest.drop lacking)

/-- Merges all runs, the shorter neighbours first. -/
def mergeAll (runs : List (Run α)) : Sorter ε (Array α) := do
  match runs with
  | [] => return #[]
  | [run] => return run.items
  | [last, before] => return (← join below before last).items
  | last :: before :: earlier :: others =>
    if earlier.items.size < last.items.size then
      let joined ← join below earlier before
      mergeAll (last :: joined :: others)
    else
      let joined ← join below before last
      mergeAll (joined :: earlier :: others)
termination_by runs.length

/-- The items in ascending order; equal items keep theirs. -/
def sort (items : List α) : Except ε (List α) := do
  let sorting : Sorter ε (Array α) := do
    mergeAll below (← addRuns below items.length items.length [] items)
  return (← sorting.run' leapLength).toList

end Whittle.Sorting
