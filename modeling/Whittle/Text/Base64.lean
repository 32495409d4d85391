import Whittle.Bytes

/-!
Bytes written in base 64: each character stands for six bits. Characters that stand
for none are passed over, and equals signs end what is written once they fill up the
last four characters.
-/

namespace Whittle.Text.Base64

def bits? (char : Char) : Option Nat :=
  if 'A' ≤ char && char ≤ 'Z' then some (char.toNat - 65)
  else if 'a' ≤ char && char ≤ 'z' then some (char.toNat - 71)
  else if '0' ≤ char && char ≤ '9' then some (char.toNat + 4)
  else if char = '+' then some 62
  else if char = '/' then some 63
  else none

/-- The bytes of characters, after `width` bits that are worth `held`, and `signs` equals signs. -/
def decodeFrom (width held signs : Nat) : List Char → Option Bytes
  | [] => if width = 0 then some [] else none
  | char :: rest =>
    if char = '=' then
      if 0 < width && width ≤ 4 && width ≤ 2 * (signs + 1) then some []
      else decodeFrom width held (signs + 1) rest
    else match bits? char with
      | none => decodeFrom width held signs rest
      | some bits =>
        if width = 0 then decodeFrom 6 bits 0 rest
        else
          let unit := Nat.pow 2 (width - 2)
          let value := held * 64 + bits
          (decodeFrom (width - 2) (value % unit) 0 rest).map (UInt8.ofNat (value / unit) :: ·)

/-- The bytes that a text writes; nothing if it breaks off within a byte. -/
def decode? (text : String) : Option Bytes :=
  decodeFrom 0 0 0 text.toList

end Whittle.Text.Base64
