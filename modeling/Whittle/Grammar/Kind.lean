import Whittle.Bytes
import Whittle.Listing

/-!
What may be done with nodes of a kind: a block's children form a run that can be
removed piece by piece, and some nodes have simpler replacements.
-/

namespace Whittle.Grammar

/-- What is known of a kind of nodes. -/
structure Kind where
  name : String
  leaf : Bool := false
  block : Bool := false
  simpler : List Bytes := []
deriving DecidableEq, Repr

def Kind.unknown : Kind := { name := "unknown" }

abbrev Kinds := List (String × Kind)

namespace Kinds

def get (kinds : Kinds) (name : String) : Kind :=
  (kinds.lookup name).getD .unknown

def add (kinds : Kinds) (kind : Kind) : Kinds :=
  if (kinds.lookup kind.name).isSome then kinds else kinds ++ [(kind.name, kind)]

/-- The kinds with blocks and replacements: the blocks first, in order, then the others that have
a replacement. -/
def ofBlocks (blocks : List String) (replacements : List (String × Bytes)) : Kinds :=
  let unique := Listing.ofList replacements
  let simpler := fun name => (unique.lookup name).toList
  let withBlocks := blocks.foldl
    (fun kinds name => Kinds.add kinds { name, block := true, simpler := simpler name }) []
  unique.foldl (fun kinds entry => Kinds.add kinds { name := entry.1, simpler := [entry.2] })
    withBlocks

end Kinds
end Whittle.Grammar
