/-!
Numbers in hexadecimal digits. They are written with small letters and read with small
and capital ones.
-/

namespace Whittle.Text

def hexDigit (value : Nat) : Char :=
  if value < 10 then Char.ofNat (48 + value) else Char.ofNat (87 + value)

def hexChars : Nat → Nat → List Char
  | 0, _ => []
  | width + 1, value => hexChars width (value / 16) ++ [hexDigit (value % 16)]

/-- The last `width` hexadecimal digits of a number, as a text. -/
def hex (width value : Nat) : String :=
  String.ofList (hexChars width value)

def hexValue? (char : Char) : Option Nat :=
  if '0' ≤ char && char ≤ '9' then some (char.toNat - 48)
  else if 'a' ≤ char && char ≤ 'f' then some (char.toNat - 87)
  else if 'A' ≤ char && char ≤ 'F' then some (char.toNat - 55)
  else none

def hexNumber? (digits : List Char) : Option Nat :=
  digits.foldl (fun value digit => do return (← value) * 16 + (← hexValue? digit)) (some 0)

end Whittle.Text
