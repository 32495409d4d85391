import Whittle.Failure

/-!
Candidates: proposed changes of a project, each with a bookmark that tells where
in the search it was made.
-/

namespace Whittle

/-- Where a search stands: the pass, the file, and the place that the pass itself keeps. A restored
bookmark comes from a snapshot; its first sweep does not count towards the fixpoint. -/
structure Bookmark where
  passIndex : Int := 0
  path : Value := .null
  position : Option (List Int) := none
  restored : Bool := false
deriving Repr, Inhabited

namespace Bookmark

/-- The written form of a bookmark, which does not tell whether it is restored. -/
def toValue (bookmark : Bookmark) : Value :=
  Value.record [
    ("pass_index", .int bookmark.passIndex),
    ("path", bookmark.path),
    ("position",
      match bookmark.position with
      | some position => .list (position.map .int)
      | none => .null)]

def ofValue (value : Value) : Except Value.Fault Bookmark := do
  let position := (← value.field? "position").getD .null
  let passIndex ← ((← value.field? "pass_index").getD (.int 0)).toInteger
  let path := (← value.field? "path").getD .null
  let position ←
    if position.isNull then pure none
    else do pure (some (← (← position.items).mapM Value.toInteger))
  return { passIndex, path, position, restored := true }

end Bookmark

/-- A proposed change: splices of one file, or files to remove. -/
structure Candidate where
  passName : String
  path : Option String := none
  splices : List Splice := []
  bookmark : Bookmark := {}
  removed : List String := []
  description : String := ""
deriving Repr, Inhabited

namespace Candidate

def spliceInto (candidate : Candidate) (data : Bytes) : Except Failure Bytes :=
  (Splice.applyAll candidate.splices data).mapError fun splice => .misfit splice data.length

end Candidate
end Whittle
