import Whittle.Text.Utf8
import Whittle.Value.Yaml.Token.Scalar

/-!
The tokens of a document. The indentation opens and closes blocks, and a colon
turns what stands before it on the line into a key.
-/

namespace Whittle.Value.Yaml

namespace Read

/-! ### Keys and indentation -/

/-- Whether the line of a possible key has ended, or the key is too long. -/
def isStale (reader : Reader) (key : PossibleKey) : Bool :=
  key.line ≠ reader.line || 1024 < reader.index - key.index

/-- Forgets the stale possible keys; one that had to be a key must not be forgotten. -/
def dropStaleKeys : Read Unit := do
  let reader ← get
  if reader.keys.any fun entry => isStale reader entry.2 && entry.2.required then malformed
  set { reader with keys := reader.keys.filter fun entry => !isStale reader entry.2 }

/-- Takes down how many tokens can be handed on: those before every possible key. -/
def settleTokens : Read Unit :=
  modify fun reader =>
    let pending := reader.keys.filter fun entry => !isStale reader entry.2
    let settled :=
      pending.foldl (fun least entry => min least entry.2.tokenNumber) reader.tokens.size
    { reader with settled }

/-- Forgets the possible key at this depth of brackets. -/
def dropKey : Read Unit := do
  let reader ← get
  if (reader.keys.lookup reader.flowLevel).any (·.required) then malformed
  set { reader with keys := reader.keys.filter (·.1 ≠ reader.flowLevel) }

def saveKey : Read Unit := do
  if (← get).keyAllowed then
    dropKey
    modify fun reader =>
      let key : PossibleKey := {
        tokenNumber := reader.tokens.size
        required := reader.flowLevel = 0 && decide (reader.indent = reader.column)
        index := reader.index
        line := reader.line
        column := reader.column }
      { reader with keys := (reader.flowLevel, key) :: reader.keys }

/-- Closes the blocks that are indented more than `column`; `outer` are the indentations around the
innermost one. -/
def closeBlocks (column : Int) (outer : List Int) (reader : Reader) : Reader :=
  match outer with
  | [] => reader
  | next :: others =>
    if column < reader.indent then
      closeBlocks column others
        { reader with indent := next, indents := others, tokens := reader.tokens.push .blockEnd }
    else reader

/-- Closes the blocks that are indented more than `column`, unless a bracket is open. -/
def unwind (column : Int) : Read Unit :=
  modify fun reader =>
    if reader.flowLevel = 0 then closeBlocks column reader.indents reader else reader

/-- Opens a block at a column, unless one is open there; answers whether it did. -/
def indentTo (column : Int) : Read Bool := do
  let reader ← get
  if reader.indent < column then
    set { reader with indents := reader.indent :: reader.indents, indent := column }
    return true
  return false

def insertTokens (number : Nat) (tokens : List Token) : Read Unit :=
  modify fun reader =>
    let after := reader.tokens.extract number reader.tokens.size
    { reader with tokens := reader.tokens.shrink number ++ tokens ++ after }

def single (token : Token) : Read Unit := do
  forward 1
  emit token

/-! ### The tokens one by one -/

def skipSpace (fuel : Nat) : Read Unit := do
  match fuel with
  | 0 => return
  | fuel + 1 =>
    let _ ← takeWhile (· = ' ')
    if (← peek) = some '#' then
      let _ ← takeWhile fun char => !isBreak char
    if (← lineBreak).isEmpty then return
    if (← get).flowLevel = 0 then allowKey true
    skipSpace fuel

/-- Ends all blocks, as before a directive and between documents. -/
def endBlocks : Read Unit := do
  unwind (-1)
  dropKey
  allowKey false

def readEnd : Read Unit := do
  endBlocks
  emit .streamEnd
  modify fun reader => { reader with done := true }

/-- A character of the name of a directive or an anchor. -/
def isNameChar (char : Char) : Bool :=
  char.isAlphanum || char = '-' || char = '_'

def isTagChar (char : Char) : Bool :=
  char.isAlphanum || "-;/?:@&=+$,_.!~*'()[]%".toList.contains char

/-- The characters of a tag, in which percent signs before two hexadecimal digits stand for the
bytes of characters; `bytes` are those directly before, in reverse order. -/
def unescape? (bytes : Bytes) : List Char → Option (List Char)
  | '%' :: high :: low :: rest => do
    unescape? (UInt8.ofNat (← Text.hexNumber? [high, low]) :: bytes) rest
  | '%' :: _ => none
  | [] => (Text.Utf8.read bytes.reverse).toOption.map String.toList
  | char :: rest => do
    return (← (Text.Utf8.read bytes.reverse).toOption).toList ++ char :: (← unescape? [] rest)

/-- Whether a word ends here: at a space, a line end or the end. -/
def atWordEnd : Read Bool := do
  let next ← peek
  return next = some ' ' || endsLine next

/-- Takes digits, of which there must be one and not too many. -/
def takeNumber : Read Nat := do
  let digits ← takeWhile Char.isDigit
  if digits.isEmpty then malformed
  if Decimal.digitLimit < digits.length then stopAt (some (.integerLength digits.length))
  return Decimal.digitsValue digits

/-- Takes the version that a directive tells, after its name. -/
def readVersion : Read Token := do
  let _ ← takeWhile (· = ' ')
  let major ← takeNumber
  if (← peek) ≠ some '.' then malformed
  forward 1
  let _ ← takeNumber
  if !(← atWordEnd) then malformed
  return .version major

/-- Takes the handle of tags, which begins with an exclamation mark and, if it has a name, ends with
one. -/
def tagHandle : Read String := do
  if (← peek) ≠ some '!' then malformed
  forward 1
  if (← peek) = some ' ' then return "!"
  let name ← takeWhile isNameChar
  if (← peek) ≠ some '!' then malformed
  forward 1
  return "!" ++ String.ofList name ++ "!"

/-- Takes the characters of a tag, of which there must be one. -/
def tagWord : Read String := do
  let word ← takeWhile isTagChar
  if word.isEmpty then malformed
  match unescape? [] word with
  | some chars => return String.ofList chars
  | none => malformed

/-- Takes the handle and its meaning that a directive tells, after its name. -/
def readHandle : Read Token := do
  let _ ← takeWhile (· = ' ')
  let name ← tagHandle
  if (← peek) ≠ some ' ' then malformed
  let _ ← takeWhile (· = ' ')
  let meaning ← tagWord
  if !(← atWordEnd) then malformed
  return .handle name meaning

/-- Takes the rest of a line, in which only a comment may stand. -/
def skipLine : Read Unit := do
  let _ ← takeWhile (· = ' ')
  if (← peek) = some '#' then
    let _ ← takeWhile fun char => !isBreak char
  if !endsLine (← peek) then malformed
  let _ ← lineBreak

def readDirective : Read Unit := do
  endBlocks
  forward 1
  let name ← takeWhile isNameChar
  if name.isEmpty || !(← atWordEnd) then malformed
  let token ← match String.ofList name with
    | "YAML" => readVersion
    | "TAG" => readHandle
    | _ => do
      let _ ← takeWhile fun char => !isBreak char
      pure .directive
  skipLine
  emit token

def readSeparator (token : Token) : Read Unit := do
  endBlocks
  forward 3
  emit token

def readOpening (token : Token) : Read Unit := do
  saveKey
  modify fun reader => { reader with flowLevel := reader.flowLevel + 1, keyAllowed := true }
  single token

def readClosing (token : Token) : Read Unit := do
  dropKey
  modify fun reader => { reader with flowLevel := reader.flowLevel - 1, keyAllowed := false }
  single token

def readComma : Read Unit := do
  allowKey true
  dropKey
  single .flowEntry

/-- Opens a block at the current column, if one may begin here. -/
def beginBlock (token : Token) : Read Unit := do
  let reader ← get
  if reader.flowLevel = 0 then
    if !reader.keyAllowed then malformed
    if ← indentTo reader.column then emit token

def readEntry : Read Unit := do
  beginBlock .blockSequence
  allowKey true
  dropKey
  single .blockEntry

def readKey : Read Unit := do
  beginBlock .blockMapping
  allowKey ((← get).flowLevel = 0)
  dropKey
  single .key

/-- Takes a colon; a possible key before it becomes one. -/
def readValue : Read Unit := do
  let level := (← get).flowLevel
  match (← get).keys.lookup level with
  | some key =>
    modify fun reader => { reader with keys := reader.keys.filter (·.1 ≠ level) }
    let opens ← if level = 0 then indentTo key.column else pure false
    insertTokens key.tokenNumber (if opens then [.blockMapping, .key] else [.key])
    allowKey false
  | none =>
    beginBlock .blockMapping
    allowKey (level = 0)
    dropKey
  single .value

/-- Takes the name after the mark of an anchor or an alias. -/
def anchorName : Read String := do
  forward 1
  let name ← takeWhile isNameChar
  let next ← peek
  if name.isEmpty || !(separates next || next.any "?:,]\x7d%@`".toList.contains) then malformed
  return String.ofList name

/-- Takes a tag: a whole one between angles, a lone mark, or a word after a handle. -/
def readTag : Read Token := do
  match ← peek 1 with
  | some '<' =>
    forward 2
    let word ← tagWord
    if (← peek) ≠ some '>' then malformed
    forward 1
    if !(← atWordEnd) then malformed
    return .tag none word
  | next =>
    if separates next then
      forward 1
      if !(← atWordEnd) then malformed
      return .tag none "!"
    let word := ((← get).rest.drop 1).takeWhile fun char => !(char = ' ' || isBreak char)
    let handle ← if word.contains '!' then tagHandle else do
      forward 1
      pure "!"
    let suffix ← tagWord
    if !(← atWordEnd) then malformed
    return .tag (some handle) suffix

/-- Takes a token that may be a key or begin one. -/
def readKeyable (token : Read Token) : Read Unit := do
  saveKey
  allowKey false
  let found ← token
  emit found

def readBlockScalar (folded : Bool) : Read Unit := do
  allowKey true
  dropKey
  emit (← blockScalar folded)

/-- Whether a plain scalar may begin with a character. -/
def startsPlain (inFlow : Bool) (char : Char) (next : Option Char) : Bool :=
  let special := "-?:,[]\x7b\x7d#&*!|>'\"%@`".toList
  (!separates (some char) && !special.contains char) ||
    (!separates next && (char = '-' || (!inFlow && (char = '?' || char = ':'))))

/-- Takes the next token, with those that it implies. -/
def readToken : Read Unit := do
  settleTokens
  skipSpace (← stepsLeft)
  dropStaleKeys
  unwind (← get).column
  let reader ← get
  let inFlow := decide (0 < reader.flowLevel)
  let separator := reader.column = 0 && (← atSeparator)
  match reader.rest with
  | [] => readEnd
  | char :: rest =>
    let next := rest.head?
    if reader.column = 0 && char = '%' then readDirective
    else if separator && char = '-' then readSeparator .documentStart
    else if separator && char = '.' then readSeparator .documentEnd
    else if char = '[' then readOpening .openSequence
    else if char = '\x7b' then readOpening .openMapping
    else if char = ']' then readClosing .closeSequence
    else if char = '\x7d' then readClosing .closeMapping
    else if char = ',' then readComma
    else if char = '-' && separates next then readEntry
    else if char = '?' && (inFlow || separates next) then readKey
    else if char = ':' && (inFlow || separates next) then readValue
    else if char = '*' then readKeyable (Token.alias <$> anchorName)
    else if char = '&' then readKeyable (Token.anchor <$> anchorName)
    else if char = '!' then readKeyable readTag
    else if char = '|' && !inFlow then readBlockScalar false
    else if char = '>' && !inFlow then readBlockScalar true
    else if char = '\'' || char = '"' then readKeyable (quotedScalar char)
    else if startsPlain inFlow char next then readKeyable plainScalar
    else malformed

def readAll : Nat → Read Unit
  | 0 => return
  | fuel + 1 => do
    readToken
    if (← get).done then return
    readAll fuel

end Read

def isDocumentChar (char : Char) : Bool :=
  let code := char.toNat
  code = 9 || code = 10 || code = 13 || (0x20 ≤ code && code ≤ 0x7e) || code = 0x85 ||
    (0xa0 ≤ code && code ≤ 0xfffd) || 0x10000 ≤ code

/-- The tokens of a document; a mark of the byte order in front is no part of it. -/
def Token.scan (chars : List Char) : Except Token.Stop (List Token) := do
  if !chars.all isDocumentChar then throw { fault := none, before := [] }
  let body := if chars.head? = some (Char.ofNat 0xfeff) then chars.drop 1 else chars
  let (_, reader) ← (Read.readAll (body.length + 1)).run { rest := body, length := body.length }
  return reader.tokens.toList

end Whittle.Value.Yaml
