import Whittle.Bytes
import Whittle.Text.Hex

/-!
Code points of texts. A text may hold halves of surrogate pairs, the code points from
U+D800 to U+DFFF, which no character is. Every other code point is held by its own
character, but for U+D7FF, the last before the halves: it marks that the next character
tells what stands there, a half or U+D7FF itself. What a text holds is so told by its
characters alone (`codesOf_flatMap_ofCode`), and texts are ordered as what they hold.

A text with halves has no bytes, except that in the names of files the halves from
U+DC80 to U+DCFF stand for single bytes.
-/

namespace Whittle.Text

/-- Whether a code point is the first half of a pair. -/
def isHigh (code : Nat) : Bool :=
  0xd800 ≤ code && code < 0xdc00

/-- Whether a code point is the second half of a pair. -/
def isLow (code : Nat) : Bool :=
  0xdc00 ≤ code && code < 0xe000

def isHalf (code : Nat) : Bool :=
  isHigh code || isLow code

/-! ### Holding code points -/

/-- The character that marks what no character holds on its own. -/
def mark : Char := Char.ofNat 0xd7ff

/-- How far the characters after a mark lie above the halves that they tell. -/
def halfDistance : Nat := 0x800

/-- The characters that hold a code point. -/
def ofCode (code : Nat) : List Char :=
  if isHalf code then [mark, Char.ofNat (code + halfDistance)]
  else if code = mark.toNat then [mark, mark]
  else [Char.ofNat code]

/-- The code point that a mark and the character after it hold. -/
def markedCode (char : Char) : Nat :=
  if char = mark then mark.toNat else char.toNat - halfDistance

/-- The code points that characters hold. -/
def codesOf : List Char → List Nat
  | first :: second :: rest =>
    if first = mark then markedCode second :: codesOf rest
    else first.toNat :: codesOf (second :: rest)
  | chars => chars.map Char.toNat

@[irreducible] def hasMark (text : String) : Bool :=
  text.toList.any (· = mark)

def codes (text : String) : List Nat :=
  if hasMark text then codesOf text.toList else text.toList.map Char.toNat

/-- The characters that hold the code points of characters. -/
def ofChars (chars : List Char) : List Char :=
  chars.flatMap fun char => if char = mark then [mark, mark] else [char]

/-- The text that holds the characters of a text from outside. -/
def held (text : String) : String :=
  if hasMark text then String.ofList (ofChars text.toList) else text

/-- The texts of the code points that a text holds, one by one. -/
def letters (text : String) : List String :=
  (codes text).map fun code => String.ofList (ofCode code)

theorem toNat_ofNat {code : Nat} (valid : code.isValidChar) : (Char.ofNat code).toNat = code := by
  rw [Char.ofNat, dif_pos valid]
  rfl

theorem toNat_mark : mark.toNat = 0xd7ff := rfl

theorem codesOf_cons {char : Char} (rest : List Char) (own : char ≠ mark) :
    codesOf (char :: rest) = char.toNat :: codesOf rest := by
  cases rest with
  | nil => rfl
  | cons next rest => simp [codesOf, own]

/-- The characters that hold code points hold no others. -/
theorem codesOf_flatMap_ofCode (points : List Nat) (inRange : ∀ code ∈ points, code < 0x110000) :
    codesOf (points.flatMap ofCode) = points := by
  induction points with
  | nil => rfl
  | cons code rest ih =>
    have bound := inRange code List.mem_cons_self
    have tail := ih fun other member => inRange other (List.mem_cons_of_mem _ member)
    by_cases half : isHalf code = true
    · have bounds : 0xd800 ≤ code ∧ code < 0xe000 := by
        simp only [isHalf, isHigh, isLow, Bool.or_eq_true, Bool.and_eq_true, decide_eq_true_eq]
          at half
        omega
      have told : (Char.ofNat (code + halfDistance)).toNat = code + halfDistance :=
        toNat_ofNat (by simp only [Nat.isValidChar, halfDistance]; omega)
      have apart : Char.ofNat (code + halfDistance) ≠ mark := by
        intro same
        have := congrArg Char.toNat same
        rw [told, toNat_mark] at this
        simp only [halfDistance] at this
        omega
      simp [ofCode, half, codesOf, markedCode, apart, told, tail]
    · by_cases marked : code = mark.toNat
      · have whole : ofCode code = [mark, mark] := by rw [ofCode, if_neg half, if_pos marked]
        simp [whole, codesOf, markedCode, ← marked, tail]
      · have valid : code.isValidChar := by
          simp only [isHalf, isHigh, isLow, Bool.or_eq_true, Bool.and_eq_true, decide_eq_true_eq]
            at half
          simp only [Nat.isValidChar]
          omega
        have own : Char.ofNat code ≠ mark := by
          intro same
          exact marked (by rw [← same, toNat_ofNat valid])
        simp [ofCode, half, marked, codesOf_cons _ own, toNat_ofNat valid, tail]

/-! ### Pairs -/

def pairChar (high low : Nat) : Char :=
  Char.ofNat (0x10000 + (high - 0xd800) * 0x400 + (low - 0xdc00))

def joinPairs : List Nat → List Char
  | high :: low :: rest =>
    if isHigh high && isLow low then pairChar high low :: joinPairs rest
    else Char.ofNat high :: joinPairs (low :: rest)
  | codes => codes.map Char.ofNat

/-- The characters that a text holds, with every two halves that make a pair joined to one. -/
def joined (text : String) : String :=
  if hasMark text then String.ofList (joinPairs (codes text)) else text

/-! ### Bytes -/

/-- The UTF-8 encoding of a text without halves. -/
def encode (text : String) : Bytes :=
  Bytes.ofText (joined text)

/-- Whether a half stands for a single byte in the names of files. -/
def standsForByte (code : Nat) : Bool :=
  0xdc80 ≤ code && code < 0xdd00

/-- Halves of pairs that have no bytes: where the first and the last stand, and the first. -/
structure Unencodable where
  first : Nat
  last : Nat
  code : Nat
deriving DecidableEq, Repr

def Unencodable.message (fault : Unencodable) : String :=
  let met :=
    if fault.first = fault.last then "character '\\u" ++ hex 4 fault.code ++ "'" else "characters"
  let place :=
    if fault.first = fault.last then s!"{fault.first}" else s!"{fault.first}-{fault.last}"
  "'utf-8' codec can't encode " ++ met ++ " in position " ++ place ++ ": surrogates not allowed"

/-- The first halves among code points that have no bytes; `named` says whether they name a file,
and `position` how many stand before them. -/
def unencodableFrom (named : Bool) (position : Nat) : List Nat → Option Unencodable
  | [] => none
  | code :: rest =>
    if isHalf code && !(named && standsForByte code) then
      let others := rest.takeWhile isHalf
      some { first := position, last := position + others.length, code }
    else unencodableFrom named (position + 1) rest

/-- The first halves in a text that have no bytes. -/
def unencodable? (named : Bool) (text : String) : Option Unencodable :=
  if hasMark text then unencodableFrom named 0 (codes text) else none

/-- How many bytes a text takes as the name of a file. -/
def nameSize (text : String) : Nat :=
  if hasMark text then
    Bytes.total ((codes text).map fun code =>
      if standsForByte code then 1 else (Char.ofNat code).utf8Size)
  else text.utf8ByteSize

/-- Whether a text takes more bytes than a limit as the name of a file. Marks take none there, so a
text that is short enough with them need not be looked into. -/
def exceeds (limit : Nat) (text : String) : Bool :=
  limit < text.utf8ByteSize && limit < nameSize text

end Whittle.Text
