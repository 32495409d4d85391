import Whittle.Text.Half

/-!
File name patterns: `*` stands for any characters, slashes included, `?` for one
character, and brackets for one character of a set, which `!` negates. A range in
a set whose ends are in the wrong order is empty; a bracket that is never closed
stands for itself.
-/

namespace Whittle

namespace Pattern

/-- A part of a pattern. -/
inductive Part where
  | anything
  | single
  | code (expected : Nat)
  | set (negated : Bool) (ranges : List (Nat × Nat))
deriving DecidableEq, Repr

/-- Splits the inside of a bracket from what follows its end. A `]` at its head does not end it. -/
def splitSet (codes : List Nat) : Option (List Nat × List Nat) :=
  let bang := if codes.head? = some '!'.toNat then 1 else 0
  let bracket := if (codes.drop bang).head? = some ']'.toNat then 1 else 0
  let inside := (codes.drop (bang + bracket)).takeWhile (· != ']'.toNat)
  let length := bang + bracket + inside.length
  if length < codes.length then some (codes.take length, codes.drop (length + 1)) else none

/-- Splits the inside of a bracket at its range signs, the first of which stands at `skip` or later.
At least two characters lie between two range signs. -/
def splitRanges (skip : Nat) (inside : List Nat) : List (List Nat) :=
  let after := inside.drop skip
  let run := after.takeWhile (· != '-'.toNat)
  let piece := inside.take (skip + run.length)
  if _ : run.length + 1 < after.length then piece :: splitRanges 2 (after.drop (run.length + 1))
  else if run.length < after.length then [piece ++ ['-'.toNat]]
  else [inside]
termination_by inside.length
decreasing_by simp only [List.length_drop, after] at *; omega

/-- Takes away the ranges whose ends are in the wrong order. -/
def dropEmptyRanges : List (List Nat) → List (List Nat)
  | [] => []
  | piece :: rest =>
    match dropEmptyRanges rest with
    | [] => [piece]
    | next :: others =>
      match piece.getLast?, next.head? with
      | some low, some high =>
        if high < low then (piece.dropLast ++ next.drop 1) :: others else piece :: next :: others
      | _, _ => piece :: next :: others

/-- The ranges of a set: one between each two pieces, and one for each other character. -/
def rangesOf : List (List Nat) → List (Nat × Nat)
  | [] => []
  | [piece] => piece.map fun code => (code, code)
  | piece :: next :: rest =>
    let singles := piece.dropLast.map fun code => (code, code)
    match piece.getLast?, next with
    | some low, high :: others => singles ++ (low, high) :: rangesOf (others :: rest)
    | _, _ => singles ++ rangesOf (next :: rest)
termination_by pieces => pieces.length

/-- The part that a bracket with this inside stands for. -/
def setOf (inside : List Nat) : Part :=
  let skip := if inside.head? = some '!'.toNat then 2 else 1
  let pieces :=
    if inside.contains '-'.toNat then dropEmptyRanges (splitRanges skip inside) else [inside]
  match pieces with
  | (first :: piece) :: rest =>
    if first ≠ '!'.toNat then .set false (rangesOf pieces)
    else if piece.isEmpty && rest.isEmpty then .single
    else .set true (rangesOf (piece :: rest))
  | pieces => .set false (rangesOf pieces)

def parse : List Nat → List Part
  | [] => []
  | code :: rest =>
    if code = '*'.toNat then .anything :: parse rest
    else if code = '?'.toNat then .single :: parse rest
    else if code = '['.toNat then
      match splitSet rest with
      | some (inside, after) =>
        if after.length < rest.length then setOf inside :: parse after else []
      | none => .code code :: parse rest
    else .code code :: parse rest
termination_by codes => codes.length

def inRanges (ranges : List (Nat × Nat)) (code : Nat) : Bool :=
  ranges.any fun range => range.1 ≤ code && code ≤ range.2

def Part.accepts : Part → Nat → Bool
  | .anything, _ => false
  | .single, _ => true
  | .code expected, given => expected == given
  | .set negated ranges, given => inRanges ranges given != negated

/-- For each tail of some parts, the longest first, whether it stands for no characters at all. -/
def emptyRow : List Part → List Bool
  | [] => [true]
  | part :: rest =>
    let row := emptyRow rest
    (part = .anything && row.headD false) :: row

/-- For each tail of some parts whether it stands for `code` and the characters after it; `after`
says which tails stand for those after it alone. -/
def nextRow (code : Nat) : List Part → List Bool → List Bool
  | part :: rest, here :: after =>
    let row := nextRow code rest after
    let found := if part = .anything then row.headD false || here
      else part.accepts code && after.headD false
    found :: row
  | _, _ => [false]

/-- Whether parts stand for all of some characters, found from the last character back. -/
def accepts (parts : List Part) (codes : List Nat) : Bool :=
  (codes.foldr (fun code row => nextRow code parts row) (emptyRow parts)).headD false

end Pattern

def matchesPattern (pattern name : String) : Bool :=
  Pattern.accepts (Pattern.parse (Text.codes pattern)) (Text.codes name)

end Whittle
