import Whittle.Bytes
import Whittle.Text.Hex

/-!
Content digests: BLAKE3 of a byte string, written in hexadecimal. The bytes are
cut into chunks of 1024, each chunk is compressed block by block, and the chunks
are joined as a binary tree whose left part holds the largest possible power of
two of them.
-/

namespace Whittle.Digest

abbrev Chain := Vector UInt32 8

/-- The words of a block or of the state of a compression. -/
abbrev Words := Vector UInt32 16

def initial : Chain :=
  #v[0x6a09e667, 0xbb67ae85, 0x3c6ef372, 0xa54ff53a, 0x510e527f, 0x9b05688c, 0x1f83d9ab, 0x5be0cd19]

/-- The order in which a round leaves the words of a block to the next. -/
def permutation : Vector (Fin 16) 16 :=
  #v[2, 6, 3, 10, 7, 0, 4, 13, 1, 11, 12, 5, 9, 14, 15, 8]

def chunkStart : UInt32 := 1

def chunkEnd : UInt32 := 2

def parentNode : UInt32 := 4

def rootNode : UInt32 := 8

def blockLength : Nat := 64

def chunkLength : Nat := 1024

def rotateRight (word : UInt32) (places : UInt32) : UInt32 :=
  (word >>> places) ||| (word <<< (32 - places))

/-- Mixes two words of a block into four words of the state. -/
def mix (state : Words) (a b c d : Fin 16) (x y : UInt32) : Words :=
  let a₁ := state.get a + state.get b + x
  let d₁ := rotateRight (state.get d ^^^ a₁) 16
  let c₁ := state.get c + d₁
  let b₁ := rotateRight (state.get b ^^^ c₁) 12
  let a₂ := a₁ + b₁ + y
  let d₂ := rotateRight (d₁ ^^^ a₂) 8
  let c₂ := c₁ + d₂
  let b₂ := rotateRight (b₁ ^^^ c₂) 7
  (((state.set a a₂).set b b₂).set c c₂).set d d₂

/-- One round: the columns of the state, then its diagonals. -/
def round (state block : Words) : Words :=
  let s := mix state 0 4 8 12 (block.get 0) (block.get 1)
  let s := mix s 1 5 9 13 (block.get 2) (block.get 3)
  let s := mix s 2 6 10 14 (block.get 4) (block.get 5)
  let s := mix s 3 7 11 15 (block.get 6) (block.get 7)
  let s := mix s 0 5 10 15 (block.get 8) (block.get 9)
  let s := mix s 1 6 11 12 (block.get 10) (block.get 11)
  let s := mix s 2 7 8 13 (block.get 12) (block.get 13)
  mix s 3 4 9 14 (block.get 14) (block.get 15)

/-- The words of a block in the order of the next round. -/
def permute (block : Words) : Words :=
  Vector.ofFn fun index => block.get (permutation.get index)

def rounds : Nat → Words → Words → Words
  | 0, state, _ => state
  | count + 1, state, block => rounds count (round state block) (permute block)

def compress (chain : Chain) (block : Words) (counter : UInt64) (length flags : UInt32) : Chain :=
  let state : Words := #v[
    chain.get 0, chain.get 1, chain.get 2, chain.get 3,
    chain.get 4, chain.get 5, chain.get 6, chain.get 7,
    initial.get 0, initial.get 1, initial.get 2, initial.get 3,
    counter.toUInt32, (counter >>> 32).toUInt32, length, flags]
  let final := rounds 7 state block
  Vector.ofFn fun index : Fin 8 =>
    final.get ⟨index, by omega⟩ ^^^ final.get ⟨index + 8, by omega⟩

/-- The word of four bytes, the lowest first. -/
def word (bytes : Bytes) : UInt32 :=
  bytes.foldr (fun byte value => (value <<< 8) ||| byte.toUInt32) 0

/-- The words of a block, filled up with zeros. -/
def blockWords (bytes : Bytes) : Words :=
  Vector.ofFn fun index => word ((bytes.drop (4 * index)).take 4)

/-- Compresses the blocks of a chunk; `extra` marks the last one further. -/
def compressBlocks (chain : Chain) (counter : UInt64) (start extra : UInt32) (bytes : Bytes) :
    Chain :=
  let block := bytes.take blockLength
  if _ : bytes.length ≤ blockLength then
    compress chain (blockWords block) counter (UInt32.ofNat block.length)
      (start ||| chunkEnd ||| extra)
  else
    let next := compress chain (blockWords block) counter 64 start
    compressBlocks next counter 0 extra (bytes.drop blockLength)
termination_by bytes.length
decreasing_by simp [blockLength] at *; omega

/-- The number of bytes in the left part of a tree over `length` bytes. -/
def leftLength (length : Nat) : Nat :=
  chunkLength * Nat.pow 2 ((length - 1) / chunkLength).log2

/-- The left part of a tree of more than one chunk is neither empty nor all of it. -/
theorem leftLength_bounds {length : Nat} (h : chunkLength < length) :
    0 < leftLength length ∧ leftLength length < length := by
  have positive : (length - 1) / chunkLength ≠ 0 := by
    have : 0 < (length - 1) / chunkLength := Nat.div_pos (by omega) (by decide)
    omega
  have power : Nat.pow 2 ((length - 1) / chunkLength).log2 ≤ (length - 1) / chunkLength :=
    Nat.log2_self_le positive
  have product := Nat.mul_le_mul_left chunkLength power
  have whole := Nat.mul_div_le (length - 1) chunkLength
  constructor
  · exact Nat.mul_pos (by decide) (Nat.two_pow_pos _)
  · unfold leftLength
    omega

/-- The value of a subtree whose first chunk has the number `index`. -/
def subtree (index : Nat) (extra : UInt32) (bytes : Bytes) : Chain :=
  if h : bytes.length ≤ chunkLength then
    compressBlocks initial (UInt64.ofNat index) chunkStart extra bytes
  else
    let left := leftLength bytes.length
    have _ := leftLength_bounds (Nat.lt_of_not_le h)
    let first := subtree index 0 (bytes.take left)
    let second := subtree (index + left / chunkLength) 0 (bytes.drop left)
    compress initial (first ++ second) 0 64 (parentNode ||| extra)
termination_by bytes.length
decreasing_by
  · simp only [List.length_take]; omega
  · simp only [List.length_drop]; omega

/-- The bytes of a word, the lowest first, in hexadecimal. -/
def wordText (word : UInt32) : String :=
  String.join ((List.range 4).map fun index => Text.hex 2 (word.toNat / Nat.pow 256 index % 256))

def ofBytes (bytes : Bytes) : String :=
  "blake3:" ++ String.join ((subtree 0 rootNode bytes).toList.map wordText)

end Whittle.Digest
