import Whittle.Value.Yaml.Token

/-!
The state of reading tokens, and the characters that separate them. A malformed
document is not read, whatever is wrong with it.
-/

namespace Whittle.Value.Yaml

/-- A place at which a key may begin, should a colon follow. -/
structure PossibleKey where
  tokenNumber : Nat
  required : Bool
  index : Nat
  line : Nat
  column : Nat
deriving DecidableEq, Repr

/-- The state of reading: the characters left, the length of the whole, where the characters stand,
the open blocks, the number of open brackets, the tokens so far, and how many of them can be handed
on, because no mark of a key will still be put before them. -/
structure Reader where
  rest : List Char
  length : Nat
  index : Nat := 0
  line : Nat := 0
  column : Nat := 0
  indent : Int := -1
  indents : List Int := []
  flowLevel : Nat := 0
  keyAllowed : Bool := true
  keys : List (Nat × PossibleKey) := []
  tokens : Array Token := #[]
  settled : Nat := 0
  done : Bool := false

abbrev Read (α : Type) := StateT Reader (Except Token.Stop) α

namespace Read

/-- Stops, maybe at a fault of what the document says. -/
def stopAt {α : Type} (fault : Option Fault) : Read α := do
  let reader ← get
  throw { fault, before := reader.tokens.toList.take reader.settled }

def malformed {α : Type} : Read α :=
  stopAt none

def isBreak (char : Char) : Bool :=
  char = '\n' || char = '\r' || char = Char.ofNat 0x85 || char = Char.ofNat 0x2028 ||
    char = Char.ofNat 0x2029

def endsLine : Option Char → Bool
  | none => true
  | some char => isBreak char

def separates : Option Char → Bool
  | none => true
  | some char => char = ' ' || char = '\t' || isBreak char

def peek (ahead : Nat := 0) : Read (Option Char) := do
  return (← get).rest[ahead]?

def lookAhead (count : Nat) : Read (List Char) := do
  return (← get).rest.take count

def advance (reader : Reader) : Reader :=
  match reader.rest with
  | [] => reader
  | char :: rest =>
    let after := { reader with rest, index := reader.index + 1 }
    if isBreak char && !(char = '\r' && rest.head? = some '\n') then
      { after with line := reader.line + 1, column := 0 }
    else if char = Char.ofNat 0xfeff then after
    else { after with column := reader.column + 1 }

def forward : Nat → Read Unit
  | 0 => return
  | count + 1 => do
    modify advance
    forward count

def take (count : Nat) : Read (List Char) := do
  let chars ← lookAhead count
  forward count
  return chars

def takeWhile (belongs : Char → Bool) : Read (List Char) := do
  take ((← get).rest.takeWhile belongs).length

/-- Takes a line end, if there is one; most of them count as a newline. -/
def lineBreak : Read (List Char) := do
  match ← lookAhead 2 with
  | '\r' :: '\n' :: _ =>
    forward 2
    return ['\n']
  | char :: _ =>
    if !isBreak char then return []
    forward 1
    return if char = Char.ofNat 0x2028 || char = Char.ofNat 0x2029 then [char] else ['\n']
  | [] => return []

/-- Whether a document begins or ends here, given that a line begins here. -/
def atSeparator : Read Bool := do
  let marker ← lookAhead 3
  return (marker = ['-', '-', '-'] || marker = ['.', '.', '.']) && separates (← peek 3)

/-- A bound on the number of steps from here to the end. -/
def stepsLeft : Read Nat := do
  let reader ← get
  return reader.length - reader.index + 1

def emit (token : Token) : Read Unit :=
  modify fun reader => { reader with tokens := reader.tokens.push token }

def allowKey (allowed : Bool) : Read Unit :=
  modify fun reader => { reader with keyAllowed := allowed }

end Read
end Whittle.Value.Yaml
