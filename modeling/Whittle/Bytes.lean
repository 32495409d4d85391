import Whittle.Signed

/-!
Byte strings, and what the reducer asks of them: lines, blanks and searches.
-/

namespace Whittle

abbrev Bytes := List UInt8

namespace Bytes

def total (sizes : List Nat) : Nat :=
  sizes.foldr (· + ·) 0

def ofText (text : String) : Bytes :=
  text.toUTF8.toList

def newline : UInt8 := 10

/-- Space, tab, newline, vertical tab, form feed and carriage return. -/
def isBlank (byte : UInt8) : Bool :=
  byte == 32 || (9 ≤ byte && byte ≤ 13)

def trimEnd (bytes : Bytes) : Bytes :=
  bytes.foldr (fun byte kept => if kept.isEmpty && isBlank byte then [] else byte :: kept) []

/-- The pieces between newlines; `n` newlines leave `n + 1` pieces. -/
def lines (bytes : Bytes) : List Bytes :=
  bytes.foldr
    (fun byte pieces =>
      match pieces with
      | [] => [[byte]]
      | piece :: rest => if byte = newline then [] :: piece :: rest else (byte :: piece) :: rest)
    [[]]

/-- The bytes cut into pieces of a size; only the last may be shorter. -/
def cut (size : Nat) (bytes : Bytes) : List Bytes :=
  if _h : bytes = [] ∨ size = 0 then []
  else bytes.take size :: cut size (bytes.drop size)
termination_by bytes.length
decreasing_by
  simp only [List.length_drop]
  have := List.length_pos_iff.mpr fun empty => _h (.inl empty)
  omega

/-- The offsets just after each newline, counted from `offset`. -/
def breaks (offset : Nat) : Bytes → List Nat
  | [] => []
  | byte :: rest =>
    if byte = newline then (offset + 1) :: breaks (offset + 1) rest else breaks (offset + 1) rest

def lineStarts (bytes : Bytes) : List Nat :=
  0 :: breaks 0 bytes

/-- The last offset at which `needle` lies within `[first, stop)`, searching from `offset`. -/
def lastFrom (needle : Bytes) (first stop : Nat) (offset : Nat) (found : Option Nat) :
    Bytes → Option Nat
  | [] => if needle.isEmpty && first ≤ offset && offset ≤ stop then some offset else found
  | byte :: rest =>
    let hit := first ≤ offset && offset + needle.length ≤ stop && needle.isPrefixOf (byte :: rest)
    lastFrom needle first stop (offset + 1) (if hit then some offset else found) rest

/-- The last offset at which `needle` lies between two positions. -/
def lastIndexOf (bytes needle : Bytes) (start stop : Int) : Option Nat :=
  lastFrom needle (Signed.clamp bytes.length start) (Signed.clamp bytes.length stop) 0 none bytes

end Bytes
end Whittle
