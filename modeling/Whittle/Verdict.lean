import Whittle.Value

/-!
Verdicts: what a run of the driver says about the project. Exit code 0 means that
the bug reproduces, any other that it does not; a run that did not get so far is
inconclusive.
-/

namespace Whittle

/-- The outcome of a run of the driver. -/
inductive Verdict where
  | exited (code : Int) (duration : Float) (output : String)
  | inconclusive (reason : String) (duration : Float)
deriving Repr, Inhabited

namespace Verdict

def reproduces : Verdict → Bool
  | .exited code _ _ => code = 0
  | .inconclusive _ _ => false

def isInconclusive : Verdict → Bool
  | .exited _ _ _ => false
  | .inconclusive _ _ => true

def status (verdict : Verdict) : String :=
  if verdict.isInconclusive then "inconclusive"
  else if verdict.reproduces then "reproduces"
  else "does_not_reproduce"

def describe : Verdict → String
  | .exited code _ _ => s!"exit code {code}"
  | .inconclusive reason _ => s!"inconclusive: {reason}"

def toValue (verdict : Verdict) : Value :=
  let (reason, code, duration, output) : Value × Value × Float × String :=
    match verdict with
    | .exited code duration output => (.null, .int code, duration, output)
    | .inconclusive reason duration => (.text reason, .null, duration, "")
  Value.record [
    ("status", .text verdict.status),
    ("reason", reason),
    ("exit_code", code),
    ("duration", .float duration),
    ("output", .text output),
    ("reproduces", .bool verdict.reproduces),
    ("inconclusive", .bool verdict.isInconclusive)]

end Verdict
end Whittle
