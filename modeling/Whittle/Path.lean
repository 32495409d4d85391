/-!
Paths as written: an optional root and the names below it. Empty names and `.`
vanish, `..` stays; a path of no names is written `.`.
-/

namespace Whittle

/-- A path: its root (nothing, `/` or `//`) and its names. -/
structure Path where
  root : String := ""
  names : List String := []
deriving DecidableEq, Repr, Inhabited

namespace Path

/-- The root that a text begins with: two slashes are kept, any other number is one. -/
def rootOf : List Char → String
  | '/' :: '/' :: '/' :: _ => "/"
  | '/' :: '/' :: _ => "//"
  | '/' :: _ => "/"
  | _ => ""

def pieces (chars : List Char) : List (List Char) :=
  chars.foldr
    (fun char parts =>
      match parts with
      | [] => [[char]]
      | part :: rest => if char = '/' then [] :: part :: rest else (char :: part) :: rest)
    [[]]

/-- What a text has between slashes, empty names and `.` included. -/
def allNames (text : String) : List String :=
  (pieces text.toList).map String.ofList

def ofText (text : String) : Path :=
  { root := rootOf text.toList
    names := (allNames text).filter fun name => name ≠ "" ∧ name ≠ "." }

def text (path : Path) : String :=
  if path.root = "" ∧ path.names = [] then "."
  else path.root ++ "/".intercalate path.names

def parts (path : Path) : List String :=
  if path.root = "" then path.names else path.root :: path.names

def isAbsolute (path : Path) : Bool :=
  path.root ≠ ""

/-- The second path as seen from the first. -/
def append (path other : Path) : Path :=
  if other.isAbsolute then other else { path with names := path.names ++ other.names }

def child (path : Path) (text : String) : Path :=
  path.append (ofText text)

def name (path : Path) : String :=
  path.names.getLast?.getD ""

def parent (path : Path) : Path :=
  { path with names := path.names.dropLast }

def withName (path : Path) (name : String) : Path :=
  { path with names := path.names.dropLast ++ [name] }

/-- The last point of a name and what follows it, unless the point begins or ends the name. -/
def suffixOf (name : String) : String :=
  let tail := name.toList.reverse.takeWhile (· != '.')
  if tail.isEmpty || name.length ≤ tail.length + 1 then ""
  else String.ofList ('.' :: tail.reverse)

def suffix (path : Path) : String :=
  suffixOf path.name

end Path
end Whittle
