import Whittle.Grammar.Concrete

/-!
A parser for bracketed languages in general. It knows comments from `#` to the end
of the line, strings in double quotes, numbers, words and brackets; every other
byte is a token of its own. It reads files of the concrete grammars where no parser
of their own is at hand.
-/

namespace Whittle.Grammar.Brackets

/-- The kinds under which a grammar knows the nodes. -/
structure Names where
  root : String
  paren : String
  square : String
  brace : String
  number : String
  string : String
deriving DecidableEq, Repr

def namesOf : String → Names
  | "rust" =>
    ⟨"source_file", "arguments", "array_expression", "block", "integer_literal", "string_literal"⟩
  | "c" | "cpp" =>
    ⟨"translation_unit", "argument_list", "initializer_list", "compound_statement",
      "number_literal", "string_literal"⟩
  | "go" =>
    ⟨"source_file", "argument_list", "parameter_list", "block", "int_literal",
      "interpreted_string_literal"⟩
  | _ => ⟨"program", "arguments", "array", "statement_block", "number", "string"⟩

/-- A bracket that is still open: the kind of its node, its start, the byte that closes it, and its
children, the last one first. -/
structure Frame where
  kind : String
  start : Nat
  closer : UInt8
  children : List Concrete

def Frame.add (frame : Frame) (child : Concrete) : Frame :=
  { frame with children := child :: frame.children }

def Frame.close (frame : Frame) (stop : Nat) : Concrete :=
  .node frame.kind frame.start stop { named := true } frame.children.reverse

def named (kind : String) (start stop : Nat) : Concrete :=
  .node kind start stop { named := true } []

def token (start stop : Nat) : Concrete :=
  .node "" start stop {} []

def wrong (start stop : Nat) : Concrete :=
  .node "ERROR" start stop { named := true, error := true } []

def isDigit (byte : UInt8) : Bool :=
  48 ≤ byte && byte ≤ 57

/-- A byte that may begin a word: an ASCII letter, an underscore, or any byte above ASCII. -/
def isLetter (byte : UInt8) : Bool :=
  (65 ≤ byte && byte ≤ 90) || (97 ≤ byte && byte ≤ 122) || byte == 95 || 128 ≤ byte

def isSpace (byte : UInt8) : Bool :=
  byte == 32 || byte == 9 || byte == 10 || byte == 13

/-- The kind and the closing byte of an opening bracket. -/
def opening? (names : Names) (byte : UInt8) : Option (String × UInt8) :=
  if byte == 40 then some (names.paren, 41)
  else if byte == 91 then some (names.square, 93)
  else if byte == 123 then some (names.brace, 125)
  else none

def isCloser (byte : UInt8) : Bool :=
  byte == 41 || byte == 93 || byte == 125

/-- The token that begins with `first`, if it begins neither a bracket nor a blank: the number of
bytes after the first, and its node. -/
def simple (names : Names) (offset : Nat) (first : UInt8) (rest : Bytes) : Nat × Concrete :=
  let run (kind : String) (belongs : UInt8 → Bool) : Nat × Concrete :=
    let more := (rest.takeWhile belongs).length
    (more, named kind offset (offset + more + 1))
  if first == 35 then run "comment" (· != Bytes.newline)
  else if isDigit first then run names.number isDigit
  else if isLetter first then run "identifier" fun byte => isLetter byte || isDigit byte
  else if first == 34 then
    let inside := (rest.takeWhile (· != 34)).length
    if (rest.drop inside).isEmpty then (inside, wrong offset (offset + inside + 1))
    else (inside + 1, named names.string offset (offset + inside + 2))
  else (0, token offset (offset + 1))

/-- Closes the frames that are open at the end; each but the root lacks its bracket. -/
def finish (stop : Nat) (top : Frame) : List Frame → Concrete
  | [] => top.close stop
  | below :: others =>
    let missing := Concrete.node "" stop stop { missing := true } []
    finish stop (below.add ((top.add missing).close stop)) others

def readFrom (names : Names) (offset : Nat) (top : Frame) (below : List Frame) (bytes : Bytes) :
    Concrete :=
  match bytes with
  | [] => finish offset top below
  | first :: rest =>
    if isSpace first then readFrom names (offset + 1) top below rest
    else match opening? names first with
      | some (kind, closer) =>
        let frame : Frame :=
          { kind, start := offset, closer, children := [token offset (offset + 1)] }
        readFrom names (offset + 1) frame (top :: below) rest
      | none =>
        if isCloser first then
          match below with
          | next :: others =>
            if first == top.closer then
              let closed := (top.add (token offset (offset + 1))).close (offset + 1)
              readFrom names (offset + 1) (next.add closed) others rest
            else readFrom names (offset + 1) (top.add (wrong offset (offset + 1))) below rest
          | [] => readFrom names (offset + 1) (top.add (wrong offset (offset + 1))) below rest
        else
          let (more, node) := simple names offset first rest
          readFrom names (offset + more + 1) (top.add node) below (rest.drop more)
termination_by bytes.length
decreasing_by all_goals simp only [List.length_cons, List.length_drop]; omega

/-- The concrete tree of some bytes; the root spans them all. -/
def parse (names : Names) (bytes : Bytes) : Concrete :=
  readFrom names 0 { kind := names.root, start := 0, closer := 0, children := [] } [] bytes

end Whittle.Grammar.Brackets
