import Whittle.Grammar.Concrete
import Whittle.Grammar.Kind
import Whittle.Grammar.Lines
import Whittle.Grammar.Statements
import Whittle.Path
import Whittle.Text.Lower

/-!
Grammars: which files they are for, what may be done with their nodes, and how
their bytes become a tree. Two ways of reading rely on outside parsers.
-/

namespace Whittle

/-- Outside parsers: one for each grammar with concrete trees, and one for statements. -/
structure Parsers where
  concrete : String → Bytes → Grammar.Concrete
  statements : Bytes → Except Grammar.StatementFault (List Grammar.Statement)

namespace Grammar

/-- How bytes become a tree. -/
inductive Reading where
  | lines
  | concrete
  | statements
deriving DecidableEq, Repr

end Grammar

/-- A grammar. -/
structure Grammar where
  name : String
  suffixes : List String := []
  anyFile : Bool := false
  kinds : Grammar.Kinds
  reading : Grammar.Reading
deriving DecidableEq, Repr

namespace Grammar

def suffixOf (path : String) : String :=
  Text.lower (Path.ofText path).suffix

def supports (grammar : Grammar) (path : String) : Bool :=
  grammar.anyFile || grammar.suffixes.contains (suffixOf path)

def kind (grammar : Grammar) (name : String) : Kind :=
  Kinds.get grammar.kinds name

def parse (parsers : Parsers) (grammar : Grammar) (data : Bytes) : Except Failure Tree :=
  match grammar.reading with
  | .lines => .ok (Lines.parse data)
  | .concrete => Concrete.parse grammar.name data (parsers.concrete grammar.name data)
  | .statements => Statements.parse data (parsers.statements data)

def render (_grammar : Grammar) (tree : Tree) : Bytes :=
  tree.source

end Grammar
end Whittle
