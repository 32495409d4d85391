import Whittle.Value.Json.Reader
import Whittle.Value.Yaml.Token.Reader

/-!
Scalars: plain, quoted, and in blocks. A line end inside a plain or a quoted scalar
becomes a space, unless empty lines follow, which then stand for themselves.
-/

namespace Whittle.Value.Yaml.Read

/-! ### Plain scalars -/

def endsPlain (inFlow : Bool) (char next : Option Char) : Bool :=
  match char with
  | none => true
  | some char =>
    separates (some char) ||
      (char = ':' && (separates next || (inFlow && next.any ",[]\x7b\x7d".toList.contains))) ||
      (inFlow && ",?[]\x7b\x7d".toList.contains char)

/-- The number of characters up to the end of a plain run. -/
def plainLength (inFlow : Bool) : List Char → Nat
  | [] => 0
  | char :: rest =>
    if endsPlain inFlow (some char) rest.head? then 0 else plainLength inFlow rest + 1

/-- Takes spaces and line ends, and answers the line ends; `none` if a document ends here. -/
def plainBreaks (fuel : Nat) (breaks : List Char) : Read (Option (List Char)) := do
  match fuel with
  | 0 => return some breaks
  | fuel + 1 =>
    match ← peek with
    | none => return some breaks
    | some char =>
      if char = ' ' then
        forward 1
        plainBreaks fuel breaks
      else if isBreak char then
        let found ← lineBreak
        if ← atSeparator then return none
        plainBreaks fuel (breaks ++ found)
      else return some breaks

/-- What line ends inside a scalar stand for. -/
def foldBreaks (first more : List Char) : List Char :=
  (if first ≠ ['\n'] then first else if more.isEmpty then [' '] else []) ++ more

/-- Takes the blanks after a plain run, and answers what they stand for. -/
def plainSpaces : Read (List Char) := do
  let blanks ← takeWhile (· = ' ')
  match ← peek with
  | none => return blanks
  | some char =>
    if !isBreak char then return blanks
    let first ← lineBreak
    allowKey true
    if ← atSeparator then return []
    match ← plainBreaks (← stepsLeft) [] with
    | none => return []
    | some more => return foldBreaks first more

/-- Takes the runs of a plain scalar; `spaces` stands before the next. -/
def plainRuns (fuel : Nat) (indent : Int) (spaces : List Char) : Read (List Char) := do
  match fuel with
  | 0 => return []
  | fuel + 1 =>
    if (← peek) = some '#' then return []
    let reader ← get
    let inFlow := decide (0 < reader.flowLevel)
    let length := plainLength inFlow reader.rest
    if length = 0 then return []
    allowKey false
    let run ← take length
    let after ← plainSpaces
    let reader ← get
    if after.isEmpty || reader.rest.head? = some '#' || (!inFlow && reader.column < indent) then
      return spaces ++ run
    return spaces ++ run ++ (← plainRuns fuel indent after)

def plainScalar : Read Token := do
  let reader ← get
  let runs ← plainRuns (← stepsLeft) (reader.indent + 1) []
  return .scalar (String.ofList (Text.ofChars runs)) true

/-! ### Quoted scalars -/

/-- The characters that letters after a backslash mean. -/
def escapes : List (Char × Nat) := [
  ('0', 0), ('a', 7), ('b', 8), ('t', 9), ('\t', 9), ('n', 10), ('v', 11), ('f', 12), ('r', 13),
  ('e', 27), (' ', 32), ('"', 34), ('\\', 92), ('/', 47), ('N', 0x85), ('_', 0xa0), ('L', 0x2028),
  ('P', 0x2029)]

/-- The number of hexadecimal digits after a backslash and a letter. -/
def escapeDigits : List (Char × Nat) := [('x', 2), ('u', 4), ('U', 8)]

def quotedBreaks (fuel : Nat) : Read (List Char) := do
  match fuel with
  | 0 => return []
  | fuel + 1 =>
    if ← atSeparator then malformed
    let _ ← takeWhile fun char => char = ' ' || char = '\t'
    if (← peek).any isBreak then
      let found ← lineBreak
      return found ++ (← quotedBreaks fuel)
    return []

/-- The least code that is not even looked up. -/
def codeLimit : Nat := 0x80000000

def escape : Read (List Char) := do
  match ← peek with
  | none => malformed
  | some char =>
    if let some code := escapes.lookup char then
      forward 1
      return [Char.ofNat code]
    if let some count := escapeDigits.lookup char then
      forward 1
      let digits ← take count
      if digits.length < count then malformed
      match Text.hexNumber? digits with
      | none => malformed
      | some code =>
        if codeLimit ≤ code then stopAt (some .codeTooLarge)
        if 0x110000 ≤ code then stopAt (some .noCharacter)
        return Text.ofCode code
    if isBreak char then
      let _ ← lineBreak
      return ← quotedBreaks (← stepsLeft)
    malformed

def quotedRun (fuel : Nat) (double : Bool) : Read (List Char) := do
  match fuel with
  | 0 => return []
  | fuel + 1 =>
    let taken ← takeWhile fun char => !separates (some char) && !"'\"\\".toList.contains char
    let run := Text.ofChars taken
    match ← lookAhead 2 with
    | '\'' :: '\'' :: _ =>
      if double then
        forward 1
        return run ++ ['\''] ++ (← quotedRun fuel double)
      forward 2
      return run ++ ['\''] ++ (← quotedRun fuel double)
    | '\'' :: _ =>
      if !double then return run
      forward 1
      return run ++ ['\''] ++ (← quotedRun fuel double)
    | '"' :: _ =>
      if double then return run
      forward 1
      return run ++ ['"'] ++ (← quotedRun fuel double)
    | '\\' :: _ =>
      forward 1
      if !double then return run ++ ['\\'] ++ (← quotedRun fuel double)
      let meant ← escape
      return run ++ meant ++ (← quotedRun fuel double)
    | _ => return run

/-- Takes the blanks in a quoted scalar, and answers what they stand for. -/
def quotedSpaces : Read (List Char) := do
  let blanks ← takeWhile fun char => char = ' ' || char = '\t'
  match ← peek with
  | none => malformed
  | some char =>
    if !isBreak char then return blanks
    let first ← lineBreak
    return foldBreaks first (← quotedBreaks (← stepsLeft))

/-- Takes the rest of a quoted scalar, up to its closing quote. -/
def quotedRest (fuel : Nat) (quote : Char) : Read (List Char) := do
  match fuel with
  | 0 => malformed
  | fuel + 1 =>
    if (← peek) = some quote then
      forward 1
      return []
    let blanks ← quotedSpaces
    let run ← quotedRun (← stepsLeft) (quote = '"')
    return blanks ++ run ++ (← quotedRest fuel quote)

def quotedScalar (quote : Char) : Read Token := do
  forward 1
  let first ← quotedRun (← stepsLeft) (quote = '"')
  let others ← quotedRest (← stepsLeft) quote
  return .scalar (String.ofList (first ++ others)) false

/-! ### Block scalars -/

/-- What becomes of the line ends at the end of a block scalar. -/
inductive Chomping where
  | clip
  | strip
  | keep
deriving DecidableEq, Repr

/-- Takes a sign that tells what becomes of the last line ends. -/
def chomping : Read (Option Chomping) := do
  match ← peek with
  | some '+' =>
    forward 1
    return some .keep
  | some '-' =>
    forward 1
    return some .strip
  | _ => return none

def increment : Read (Option Nat) := do
  match ← peek with
  | some char =>
    if !char.isDigit then return none
    if char = '0' then malformed
    forward 1
    return some (char.toNat - 48)
  | none => return none

/-- Takes the signs of a block scalar, in either order, and the rest of their line. -/
def blockHeader : Read (Chomping × Option Nat) := do
  let before ← chomping
  let width ← increment
  let after ← if before.isNone && width.isSome then chomping else pure none
  let next ← peek
  if !(next = some ' ' || endsLine next) then malformed
  let _ ← takeWhile (· = ' ')
  if (← peek) = some '#' then
    let _ ← takeWhile fun char => !isBreak char
  if !endsLine (← peek) then malformed
  let _ ← lineBreak
  return (((before.orElse fun _ => after).getD .clip), width)

/-- Takes the empty lines before a block scalar; answers them and the deepest indentation. -/
def leadingBreaks (fuel : Nat) (breaks : List Char) (deepest : Nat) : Read (List Char × Nat) := do
  match fuel with
  | 0 => return (breaks, deepest)
  | fuel + 1 =>
    match ← peek with
    | none => return (breaks, deepest)
    | some char =>
      if isBreak char then
        let found ← lineBreak
        leadingBreaks fuel (breaks ++ found) deepest
      else if char = ' ' then
        forward 1
        leadingBreaks fuel breaks (max deepest (← get).column)
      else return (breaks, deepest)

def skipIndent (fuel : Nat) (indent : Int) : Read Unit := do
  match fuel with
  | 0 => return
  | fuel + 1 =>
    if (← get).column < indent ∧ (← peek) = some ' ' then
      forward 1
      skipIndent fuel indent

def blockBreaks (fuel : Nat) (indent : Int) : Read (List Char) := do
  match fuel with
  | 0 => return []
  | fuel + 1 =>
    skipIndent (← stepsLeft) indent
    if (← peek).any isBreak then
      let found ← lineBreak
      return found ++ (← blockBreaks fuel indent)
    return []

def atBlockLine (indent : Int) : Read Bool := do
  let reader ← get
  return decide ((reader.column : Int) = indent) && !reader.rest.isEmpty

/-- Takes the lines of a block scalar, after some empty ones; answers their text, the line end after
the last of them, and the empty lines after that. -/
def blockLines (fuel : Nat) (folded : Bool) (indent : Int) (breaks : List Char) :
    Read (List Char × List Char × List Char) := do
  match fuel with
  | 0 => return ([], [], breaks)
  | fuel + 1 =>
    if !(← atBlockLine indent) then return ([], [], breaks)
    let isBlank := fun char : Option Char => char = some ' ' || char = some '\t'
    let flush := !isBlank (← peek)
    let line ← takeWhile fun char => !isBreak char
    let ending ← lineBreak
    let more ← blockBreaks (← stepsLeft) indent
    if !(← atBlockLine indent) then return (breaks ++ line, ending, more)
    let joined := folded && ending = ['\n'] && flush && !isBlank (← peek)
    let joint := if joined then (if more.isEmpty then [' '] else []) else ending
    let (others, last, tail) ← blockLines fuel folded indent more
    return (breaks ++ line ++ joint ++ others, last, tail)

def blockScalar (folded : Bool) : Read Token := do
  forward 1
  let (chomp, width) ← blockHeader
  let least := max 1 ((← get).indent + 1)
  let (indent, breaks) ← match width with
    | some width => do
      let indent := least + width - 1
      pure (indent, ← blockBreaks (← stepsLeft) indent)
    | none => do
      let (breaks, deepest) ← leadingBreaks (← stepsLeft) [] 0
      pure (max least deepest, breaks)
  let (body, ending, tail) ← blockLines (← stepsLeft) folded indent breaks
  let last := match chomp with
    | .strip => []
    | .clip => ending
    | .keep => ending ++ tail
  return .scalar (String.ofList (Text.ofChars (body ++ last))) false

end Whittle.Value.Yaml.Read
