import Whittle.Tree

/-!
Files without a grammar: a flat run of lines. A line does not hold its newline,
and a newline at the end begins no further line.
-/

namespace Whittle.Grammar.Lines

/-- The start and end of each line of the bytes from `offset` on; `start` is where the current line
began. -/
def spans (start offset : Nat) : Bytes → List (Nat × Nat)
  | [] => if start < offset then [(start, offset)] else []
  | byte :: rest =>
    if byte = Bytes.newline then (start, offset) :: spans (offset + 1) (offset + 1) rest
    else spans start (offset + 1) rest

def parse (data : Bytes) : Tree :=
  let root : Tree := { source := data, nodes := #[{ kind := "file", start := 0, stop := 0 }] }
  let grown := (spans 0 0 data).foldl (fun tree span => tree.grow "line" span.1 span.2 0) root
  grown.stretch 0 data.length

end Whittle.Grammar.Lines
