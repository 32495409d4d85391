import Whittle.Text.Blank

/-!
Line ends. A text file ends its lines with a newline, a carriage return, or
both; reading turns each of them into a newline.
-/

namespace Whittle.Text

def unifyChars : List Char → List Char
  | [] => []
  | '\r' :: '\n' :: rest => '\n' :: unifyChars rest
  | '\r' :: rest => '\n' :: unifyChars rest
  | char :: rest => char :: unifyChars rest

/-- The text with every line end turned into a newline. -/
def unifyLines (text : String) : String :=
  String.ofList (unifyChars text.toList)

/-- The lines of a text, each with its newline; only the last may lack one. -/
def linesOf (chars : List Char) : List (List Char) :=
  chars.foldr
    (fun char lines =>
      match lines with
      | [] => [[char]]
      | line :: rest => if char = '\n' then ['\n'] :: line :: rest else (char :: line) :: rest)
    []

/-- The lines that are known to be complete when more may follow the characters: they have a
newline, and a carriage return at the end is none yet. -/
def completeLines (chars : List Char) : List (List Char) :=
  let known := if chars.getLast? = some '\r' then chars.dropLast else chars
  (linesOf (unifyChars known)).filter (·.getLast? = some '\n')

/-- The last line of a printed text, without the blanks after it. -/
def lastLine (text : String) : String :=
  String.ofList
    ((text.toList.reverse.dropWhile isBlank).takeWhile (· ≠ '\n')).reverse

end Whittle.Text
