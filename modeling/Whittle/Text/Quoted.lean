import Whittle.Text.Half
import Whittle.Text.Printable

/-!
Quoted forms of texts and byte strings, as they stand in messages. The quote is
`'` unless the content holds `'` and no `"`; what cannot be shown is escaped.
-/

namespace Whittle.Text

/-- The quote around a content that holds these code points. -/
def quoteFor (codes : List Nat) : Char :=
  if codes.contains '\''.toNat && !codes.contains '"'.toNat then '"' else '\''

def quotedCode (quote : Char) (code : Nat) : List Char :=
  let char := Char.ofNat code
  if char = quote || char = '\\' then ['\\', char]
  else if char = '\t' then ['\\', 't']
  else if char = '\n' then ['\\', 'n']
  else if char = '\r' then ['\\', 'r']
  else if isPrintable char then [char]
  else if code < 0x100 then '\\' :: 'x' :: hexChars 2 code
  else if code < 0x10000 then '\\' :: 'u' :: hexChars 4 code
  else '\\' :: 'U' :: hexChars 8 code

def quoted (text : String) : String :=
  let held := codes text
  let quote := quoteFor held
  String.ofList (quote :: held.flatMap (quotedCode quote) ++ [quote])

def quotedByte (quote : Char) (byte : UInt8) : List Char :=
  if byte < 32 || 127 ≤ byte then
    if byte = 9 then ['\\', 't']
    else if byte = 10 then ['\\', 'n']
    else if byte = 13 then ['\\', 'r']
    else '\\' :: 'x' :: hexChars 2 byte.toNat
  else
    quotedCode quote byte.toNat

def quotedBytes (bytes : Bytes) : String :=
  let quote := quoteFor (bytes.map UInt8.toNat)
  String.ofList ('b' :: quote :: bytes.flatMap (quotedByte quote) ++ [quote])

end Whittle.Text
