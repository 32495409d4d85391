/-!
Blank characters of every script.
-/

namespace Whittle.Text

/-- The blanks above ASCII, as ranges with both ends included. -/
def wideBlanks : List (Nat × Nat) := [
  (0x85, 0x85), (0xa0, 0xa0), (0x1680, 0x1680), (0x2000, 0x200a), (0x2028, 0x2029),
  (0x202f, 0x202f), (0x205f, 0x205f), (0x3000, 0x3000)]

/-- Spaces, tabs, line ends and separators of every script. -/
def isBlank (char : Char) : Bool :=
  let code := char.toNat
  (9 ≤ code && code ≤ 13) || (0x1c ≤ code && code ≤ 0x20) ||
    wideBlanks.any fun range => range.1 ≤ code && code ≤ range.2

def trimChars (chars : List Char) : List Char :=
  ((chars.dropWhile isBlank).reverse.dropWhile isBlank).reverse

def trim (text : String) : String :=
  String.ofList (trimChars text.toList)

end Whittle.Text
