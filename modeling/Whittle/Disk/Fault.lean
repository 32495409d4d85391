import Whittle.Disk.Code
import Whittle.Text.Quoted

/-!
Faults of file operations. Most come from the operating system, as a code and the
paths it was met at; others show before it is asked.
-/

namespace Whittle.Disk

/-- A file operation that did not succeed. -/
inductive Fault where
  /-- A code, and the written forms of the paths it was met at. -/
  | met (code : Code) (operands : List String)
  /-- A symbolic link stands where a directory tree was to be removed. -/
  | linkedTree
  /-- Someone who was asked to take part refused. -/
  | refused (reason : String)
  /-- A path holds the character that ends paths for the operating system. -/
  | nullByte
  /-- A path holds halves of characters. -/
  | unencodable (fault : Text.Unencodable)
  /-- Links lead from a path back to itself. -/
  | circle (path : String)
deriving DecidableEq, Repr

def Fault.at (code : Code) (path : String) : Fault :=
  .met code [Text.quoted path]

def Fault.between (code : Code) (source target : String) : Fault :=
  .met code [Text.quoted source, Text.quoted target]

/-- Whether a fault comes from the operating system, or from someone who stands for it. -/
def Fault.isSystem : Fault → Bool
  | .nullByte | .unencodable _ | .circle _ => false
  | _ => true

def Fault.message : Fault → String
  | .met code operands =>
    let tail := if operands.isEmpty then "" else ": " ++ " -> ".intercalate operands
    s!"[Errno {code.number}] " ++ code.wording ++ tail
  | .linkedTree => "Cannot call rmtree on a symbolic link"
  | .refused reason => reason
  | .nullByte => "embedded null byte"
  | .unencodable fault => fault.message
  | .circle path => "Symlink loop from " ++ Text.quoted path

end Whittle.Disk
