import Whittle.Value

/-!
The order in which the members of a set are shown. A set holds numbers in a table of
slots: each has a home by its residue, and if that is taken, a way of further slots. The
members are shown slot by slot; those that are no numbers leave all in the given order.
-/

namespace Whittle.Value.Yaml.Slots

/-- The prime by which residues are taken. -/
def modulus : Nat := Nat.pow 2 61 - 1

/-- The residue of a ratio of a natural and a power of two; two to the sixty-first is one. -/
def residueOf (magnitude : Decimal.Magnitude) : Nat :=
  magnitude.mantissa * Nat.pow 2 (magnitude.exponent % 61).toNat % modulus

def infinite : Nat := 314159

/-- A residue with a sign, as a word of 64 bits; minus one gives way to minus two. -/
def signed (negative : Bool) (residue : Nat) : Nat :=
  if !negative || residue = 0 then residue
  else Nat.pow 2 64 - (if residue = 1 then 2 else residue)

/-- The word by which a number is placed; what is no number has none. -/
def word? : Value → Option Nat
  | .bool value => some (if value then 1 else 0)
  | .int value => some (signed (value < 0) (value.natAbs % modulus))
  | .float value =>
    match Decimal.parts value.toBits with
    | .nan => none
    | .infinite negative => some (signed negative infinite)
    | .finite negative magnitude => some (signed negative (residueOf magnitude))
  | _ => none

/-- The number of slots for so many members: eight, or the first power of two above twice their
number. -/
def tableSize (members : Nat) : Nat :=
  if members * 5 < 21 then 8
  else (List.range 64).foldl (fun size _ => if size ≤ 2 * members then 2 * size else size) 8

/-- How many slots after another are tried before the way goes on elsewhere. -/
def runLength : Nat := 9

/-- The slots of a run from one on; a run that would go beyond the table is that slot alone. -/
def run (size slot : Nat) : List Nat :=
  if slot + runLength < size then (List.range (runLength + 1)).map (slot + ·) else [slot]

/-- The first free slot on the way from one on; `left` is what is left of the word. -/
def freeSlot (taken : Nat → Bool) (size fuel slot left : Nat) : Nat :=
  match fuel with
  | 0 => slot
  | fuel + 1 =>
    match (run size slot).find? fun other => !taken other with
    | some found => found
    | none => freeSlot taken size fuel ((slot * 5 + 1 + left / 32) % size) (left / 32)

/-- The members of a set with their slots, after those `placed` so far. -/
def place (size : Nat) (placed : List (Nat × Value)) : List (Nat × Value) → List (Nat × Value)
  | [] => placed
  | (word, value) :: rest =>
    let taken (slot : Nat) : Bool := placed.any (·.1 == slot)
    place size ((freeSlot taken size (size + 14) (word % size) word, value) :: placed) rest

/-- The members of a set in the order in which they are shown. -/
def arrange (members : List Value) : List Value :=
  match members.mapM fun member => (word? member).map (·, member) with
  | some words =>
    ((place (tableSize members.length) [] words).mergeSort fun left right => left.1 ≤ right.1).map
      Prod.snd
  | none => members

end Whittle.Value.Yaml.Slots
