import Whittle.Failure
import Whittle.Tree

/-!
Programs given as nested statements with line and column positions, and their
trees: each statement is a node, each body a `suite`, and the clauses of a
statement stand in a group. A statement starts at its first decorator.
-/

namespace Whittle.Grammar

/-- A line, counted from 1, and a column in bytes. -/
structure Mark where
  line : Int
  column : Int
deriving DecidableEq, Repr

/-- Where a statement begins and ends. -/
structure Span where
  start : Mark
  stop : Mark
deriving DecidableEq, Repr

/-- Why a clause has no pattern or no body: it was not given, or given as nothing. -/
inductive Absence where
  | missing
  | nothing
deriving DecidableEq, Repr, Inhabited

/-- A statement or a clause. A clause may lack a span; then its pattern tells where it is. If it has
no body, `bodiless` tells why. -/
inductive Statement where
  | mk (kind : String) (span : Option Span) (decorators : List Mark)
      (pattern : Except Absence Mark) (bodiless : Option Absence)
      (body handlers cases orElse finalBody : List Statement)
deriving Inhabited

/-- Why a program is not read as statements. -/
inductive StatementFault where
  | syntaxError (reason : String) (line offset : Option Int)
  | value (reason : String)
deriving DecidableEq, Repr

namespace Statement

def kind : Statement → String
  | .mk kind _ _ _ _ _ _ _ _ _ => kind

def span : Statement → Option Span
  | .mk _ span _ _ _ _ _ _ _ _ => span

def decorators : Statement → List Mark
  | .mk _ _ decorators _ _ _ _ _ _ _ => decorators

def pattern : Statement → Except Absence Mark
  | .mk _ _ _ pattern _ _ _ _ _ _ => pattern

def bodiless : Statement → Option Absence
  | .mk _ _ _ _ bodiless _ _ _ _ _ => bodiless

def body : Statement → List Statement
  | .mk _ _ _ _ _ body _ _ _ _ => body

end Statement

namespace Statements

/-- The bytes of a program and where its lines start. -/
structure Layout where
  data : Bytes
  starts : List Nat

def Layout.lineStart (layout : Layout) (line : Int) : Except Failure Int :=
  match Signed.get? layout.starts (line - 1) with
  | some offset => .ok offset
  | none => .error .outOfRange

def Layout.offset (layout : Layout) (mark : Mark) : Except Failure Int := do
  return (← layout.lineStart mark.line) + mark.column

/-- Where a decorator starts: at the `@` before it on its line, if there is one. -/
def Layout.decoratorStart (layout : Layout) (mark : Mark) : Except Failure Int := do
  let expression ← layout.offset mark
  let line ← layout.lineStart mark.line
  match layout.data.lastIndexOf (Bytes.ofText "@") line expression with
  | some found => return found
  | none => return expression

/-- The least of an offset and those of some decorators. -/
def Layout.leastStart (layout : Layout) (least : Int) : List Mark → Except Failure Int
  | [] => .ok least
  | mark :: rest => do
    let start ← layout.decoratorStart mark
    layout.leastStart (min least start) rest

/-- Where a statement starts, its decorators included. -/
def Layout.startOf (layout : Layout) (statement : Statement) : Except Failure Int := do
  match statement.span with
  | some span => layout.leastStart (← layout.offset span.start) statement.decorators
  | none => throw (.lacking statement.kind "lineno")

def Layout.stopOf (layout : Layout) (statement : Statement) : Except Failure Int :=
  match statement.span with
  | some span => layout.offset span.stop
  | none => .error (.lacking statement.kind "end_lineno")

def Layout.stopOfLast (layout : Layout) (statements : List Statement) : Except Failure Int :=
  match statements.getLast? with
  | some statement => layout.stopOf statement
  | none => .error .outOfRange

/-- Where a clause ends, which is where its body does. -/
def Layout.stopOfClause (layout : Layout) (clause : Statement) : Except Failure Int :=
  match clause.bodiless with
  | none => layout.stopOfLast clause.body
  | some .missing => .error (.lacking clause.kind "body")
  | some .nothing => .error (.value (.notIndexable .null))

def patternOf (clause : Statement) : Except Failure Mark :=
  match clause.pattern with
  | .ok mark => .ok mark
  | .error .missing => .error (.lacking clause.kind "pattern")
  | .error .nothing => .error (.value (.noMember .null "lineno"))

/-- Where a clause starts: at its span, or at the keyword before its pattern. -/
def Layout.clauseOffset (layout : Layout) (clause : Statement) : Except Failure Int := do
  match clause.span with
  | some span => layout.offset span.start
  | none =>
    let pattern ← layout.offset (← patternOf clause)
    match layout.data.lastIndexOf (Bytes.ofText "case") 0 pattern with
    | some keyword => return keyword
    | none => return pattern

/-- Adds a node that has no bytes yet under `parent`, which is there. -/
def openNode (tree : Tree) (kind : String) (start : Int) (parent : Nat) : Tree :=
  tree.grow kind start start parent

mutual

def addStatement (layout : Layout) (tree : Tree) (parent : Nat) : Statement → Except Failure Tree
  | .mk kind span decorators pattern bodiless body handlers cases orElse last => do
    let whole :=
      Statement.mk kind span decorators pattern bodiless body handlers cases orElse last
    let start ← layout.startOf whole
    let index := tree.nodes.size
    let opened := openNode tree kind start parent
    let filled ← addSuite layout opened index body
    let filled ← addGroup layout filled index "handlers" handlers
    let filled ← addGroup layout filled index "cases" cases
    let filled ← addSuite layout filled index orElse
    let filled ← addSuite layout filled index last
    return filled.stretch index (← layout.stopOf whole)

def addStatements (layout : Layout) (tree : Tree) (parent : Nat) :
    List Statement → Except Failure Tree
  | [] => .ok tree
  | statement :: rest => do
    addStatements layout (← addStatement layout tree parent statement) parent rest

def addSuite (layout : Layout) (tree : Tree) (parent : Nat) : List Statement → Except Failure Tree
  | [] => .ok tree
  | first :: rest => do
    let start ← layout.startOf first
    let index := tree.nodes.size
    let opened := openNode tree "suite" start parent
    let begun ← addStatement layout opened index first
    let filled ← addStatements layout begun index rest
    return filled.stretch index (← layout.stopOfLast (first :: rest))

def addGroup (layout : Layout) (tree : Tree) (parent : Nat) (kind : String) :
    List Statement → Except Failure Tree
  | [] => .ok tree
  | first :: rest => do
    let starts ← (first :: rest).mapM layout.clauseOffset
    let index := tree.nodes.size
    let opened := openNode tree kind (starts.headD 0) parent
    let begun ← addClause layout opened index first
    let filled ← addClauses layout begun index rest
    let last := (first :: rest).getLastD first
    return filled.stretch index (← layout.stopOfClause last)

def addClause (layout : Layout) (tree : Tree) (parent : Nat) : Statement → Except Failure Tree
  | .mk kind span decorators pattern bodiless body handlers cases orElse last => do
    let whole :=
      Statement.mk kind span decorators pattern bodiless body handlers cases orElse last
    let start ← layout.clauseOffset whole
    let index := tree.nodes.size
    let opened := openNode tree kind start parent
    let filled ← addSuite layout opened index body
    let filled ← addGroup layout filled index "handlers" handlers
    let filled ← addGroup layout filled index "cases" cases
    let filled ← addSuite layout filled index orElse
    let filled ← addSuite layout filled index last
    return filled.stretch index (← layout.stopOfClause whole)

def addClauses (layout : Layout) (tree : Tree) (parent : Nat) :
    List Statement → Except Failure Tree
  | [] => .ok tree
  | clause :: rest => do
    addClauses layout (← addClause layout tree parent clause) parent rest

end

def toTree (data : Bytes) (program : List Statement) : Except Failure Tree := do
  let layout : Layout := { data, starts := data.lineStarts }
  let root : Tree := { source := data, nodes := #[{ kind := "module", start := 0, stop := 0 }] }
  let filled ← addStatements layout root 0 program
  return filled.stretch 0 data.length

def errorOffset (data : Bytes) (line offset : Option Int) : Option Int :=
  line.bind fun line =>
    if 0 < line ∧ line ≤ data.lineStarts.length then
      let column := match offset with
        | some offset => if offset = 0 then 1 else offset
        | none => 1
      (data.lineStarts[(line - 1).toNat]?).map fun start => start + max (column - 1) 0
    else none

/-- The tree of what a parser read, or why it read nothing. -/
def parse (data : Bytes) : Except StatementFault (List Statement) → Except Failure Tree
  | .ok program => toTree data program
  | .error (.syntaxError reason line offset) =>
    .error (.unparsed ("SyntaxError: " ++ reason) (errorOffset data line offset))
  | .error (.value reason) => .error (.unparsed reason none)

end Statements
end Whittle.Grammar
