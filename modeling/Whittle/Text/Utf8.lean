import Whittle.Bytes
import Whittle.Text.Hex

/-!
Reading UTF-8. A byte string is cut into characters and invalid parts, each as
long as possible; reading either stops at the first invalid part or puts the
replacement character in its place.
-/

namespace Whittle.Text.Utf8

/-- Why bytes are not a character. -/
inductive Reason where
  | start
  | continuation
  | truncated
deriving DecidableEq, Repr

/-- A character or an invalid part, with the number of bytes after its first. -/
inductive Piece where
  | char (char : Char) (more : Nat)
  | invalid (reason : Reason) (more : Nat)
deriving DecidableEq, Repr

def Piece.more : Piece → Nat
  | .char _ more => more
  | .invalid _ more => more

/-- A byte that may follow the first byte of a character. -/
def isContinuation (byte : UInt8) : Bool :=
  0x80 ≤ byte && byte < 0xc0

def payload (byte : UInt8) : Nat :=
  byte.toNat % 64

/-- The character or invalid part that begins with `first`. -/
def next (first : UInt8) (rest : Bytes) : Piece :=
  let code := first.toNat
  if code < 0x80 then .char (Char.ofNat code) 0
  else if code < 0xc2 then .invalid .start 0
  else if code < 0xe0 then
    match rest with
    | [] => .invalid .truncated 0
    | second :: _ =>
      if isContinuation second then .char (Char.ofNat ((code - 0xc0) * 64 + payload second)) 1
      else .invalid .continuation 0
  else if code < 0xf0 then
    match rest with
    | [] => .invalid .truncated 0
    | second :: others =>
      if !isContinuation second || (second < 0xa0 && code == 0xe0)
        || (0xa0 ≤ second && code == 0xed)
      then .invalid .continuation 0
      else match others with
        | [] => .invalid .truncated 1
        | third :: _ =>
          if isContinuation third then
            .char (Char.ofNat (((code - 0xe0) * 64 + payload second) * 64 + payload third)) 2
          else .invalid .continuation 1
  else if code < 0xf5 then
    match rest with
    | [] => .invalid .truncated 0
    | second :: others =>
      if !isContinuation second || (second < 0x90 && code == 0xf0)
        || (0x90 ≤ second && code == 0xf4)
      then .invalid .continuation 0
      else match others with
        | [] => .invalid .truncated 1
        | third :: last =>
          if !isContinuation third then .invalid .continuation 1
          else match last with
            | [] => .invalid .truncated 2
            | fourth :: _ =>
              if isContinuation fourth then
                .char (Char.ofNat ((((code - 0xf0) * 64 + payload second) * 64 + payload third) * 64
                  + payload fourth)) 3
              else .invalid .continuation 2
  else .invalid .start 0

/-- The characters and invalid parts of a byte string, in order. -/
def pieces : Bytes → List Piece
  | [] => []
  | first :: rest =>
    let piece := next first rest
    piece :: pieces (rest.drop piece.more)
termination_by bytes => bytes.length
decreasing_by simp only [List.length_cons, List.length_drop]; omega

/-- The text with one replacement character for each invalid part. -/
def readLossy (bytes : Bytes) : String :=
  String.ofList <| (pieces bytes).map fun
    | .char char _ => char
    | .invalid _ _ => Char.ofNat 0xfffd

/-- The place and reason of the first invalid part. -/
structure Fault where
  byte : UInt8
  offset : Nat
  length : Nat
  reason : Reason
deriving DecidableEq, Repr

/-- Reads the pieces of a byte string, of which the first `offset` bytes are done. -/
def readPieces (bytes : Bytes) (offset : Nat) : List Piece → Except Fault (List Char)
  | [] => .ok []
  | .char char more :: rest => (readPieces bytes (offset + more + 1) rest).map (char :: ·)
  | .invalid reason more :: _ =>
    .error { byte := bytes.getD offset 0, offset, length := more + 1, reason }

/-- The text of a byte string, or its first invalid part. -/
def read (bytes : Bytes) : Except Fault String :=
  (readPieces bytes 0 (pieces bytes)).map String.ofList

/-- Whether more bytes are waited for before a fault is told: what cannot be read is the beginning
of a character, or the first two of three bytes that encode half of a pair of units. -/
def Fault.isBrokenOff (fault : Fault) (bytes : Bytes) : Bool :=
  fault.reason = .truncated ||
    match bytes.drop fault.offset with
    | [first, second] => first = 0xed && isContinuation second
    | _ => false

/-- Reads pieces of a byte string one after the other; a character that a piece breaks off is read
with the next piece, and `held` is what the piece before broke off. Answers the characters before
the first piece that cannot be read, and its fault, counted from the first byte that is read with
it. -/
def readEach (held : Bytes) : List Bytes → List Char × Option Fault
  | [] =>
    match read held with
    | .ok text => (text.toList, none)
    | .error fault => ([], some fault)
  | piece :: rest =>
    let bytes := held ++ piece
    match read bytes with
    | .ok text =>
      let (more, fault) := readEach [] rest
      (text.toList ++ more, fault)
    | .error fault =>
      if fault.isBrokenOff bytes then
        let whole := (readLossy (bytes.take fault.offset)).toList
        let (more, later) := readEach (bytes.drop fault.offset) rest
        (whole ++ more, later)
      else ([], some fault)

def Reason.message : Reason → String
  | .start => "invalid start byte"
  | .continuation => "invalid continuation byte"
  | .truncated => "unexpected end of data"

def Fault.message (fault : Fault) : String :=
  let place :=
    if fault.length = 1 then
      s!"byte 0x" ++ hex 2 fault.byte.toNat ++ s!" in position {fault.offset}"
    else
      s!"bytes in position {fault.offset}-{fault.offset + fault.length - 1}"
  "'utf-8' codec can't decode " ++ place ++ ": " ++ fault.reason.message

end Whittle.Text.Utf8
