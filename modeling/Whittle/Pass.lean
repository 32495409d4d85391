import Whittle.Failure

/-!
Reduction passes and the catalog of those a run goes through.
-/

namespace Whittle

/-- A way to make a project smaller. -/
inductive Pass where
  /-- Removes whole files, never the last one. -/
  | removeFiles
  /-- Removes runs of siblings in every block. -/
  | deleteSiblings
  /-- Replaces nodes by simpler ones of their kind. -/
  | replaceSimpler
  /-- Removes runs of lines, whatever the grammar. -/
  | removeLines
  /-- Trims line ends and drops empty lines. -/
  | discardWhitespace
deriving DecidableEq, Repr

namespace Pass

/-- What a pass works on at a time. -/
inductive Scope where
  | project
  | file
deriving DecidableEq, Repr

def all : List Pass :=
  [.removeFiles, .deleteSiblings, .replaceSimpler, .removeLines, .discardWhitespace]

def name : Pass → String
  | .removeFiles => "remove-files"
  | .deleteSiblings => "delete-siblings"
  | .replaceSimpler => "replace-simpler"
  | .removeLines => "remove-lines"
  | .discardWhitespace => "discard-whitespace"

def scope : Pass → Scope
  | .removeFiles => .project
  | _ => .file

def Scope.name : Scope → String
  | .project => "project"
  | .file => "file"

def shown (pass : Pass) : String :=
  let title := match pass with
    | .removeFiles => "RemoveFilesPass"
    | .deleteSiblings => "DeleteSiblingsPass"
    | .replaceSimpler => "ReplaceSimplerPass"
    | .removeLines => "RemoveLinesPass"
    | .discardWhitespace => "DiscardWhitespacePass"
  "<" ++ title ++ " " ++ pass.name ++ ">"

def ofName? (name : String) : Option Pass :=
  all.find? (·.name = name)

/-- The passes of the given names, or all of them; whether files may be removed is up to
`fileRemoval`. -/
def catalog (names : List String) (fileRemoval : Bool) : Except Failure (List Pass) :=
  let selected := if names.isEmpty then all.map name else names
  let unknown := selected.filter fun name => (ofName? name).isNone
  if unknown.isEmpty then
    .ok ((selected.filterMap ofName?).filter fun pass => fileRemoval || pass ≠ .removeFiles)
  else
    .error (.unknownPasses unknown)

end Pass
end Whittle
