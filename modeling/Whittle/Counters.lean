import Whittle.Value.Convert

/-!
What a run counts: its trials by outcome, the size it began with, and the time it
takes. Counters are kept in snapshots and go on from there.
-/

namespace Whittle

/-- The counters of a run. -/
structure Counters where
  accepted : Int := 0
  rejected : Int := 0
  inconclusive : Int := 0
  parseFailures : Int := 0
  initialSize : Int := 0
  startedAt : Float := 0.0
deriving Repr, Inhabited

namespace Counters

def elapsed (counters : Counters) (now : Float) : Float :=
  now - counters.startedAt

/-- The written form of a time taken, to a thousandth of a second. -/
def writtenTime (seconds : Float) : Value :=
  .float (Decimal.roundPlaces 3 seconds)

def toValue (counters : Counters) (now : Float) : Value :=
  Value.record [
    ("accepted", .int counters.accepted),
    ("rejected", .int counters.rejected),
    ("inconclusive", .int counters.inconclusive),
    ("parse_failures", .int counters.parseFailures),
    ("initial_size", .int counters.initialSize),
    ("elapsed", writtenTime (counters.elapsed now))]

/-- The integer of a field, zero if it is missing. -/
def readField (value : Value) (key : String) : Except Value.Fault Int := do
  ((← value.field? key).getD (.int 0)).toInteger

/-- Reads counters back; the time already taken goes on counting. -/
def ofValue (value : Value) (now : Float) : Except Value.Fault Counters := do
  let accepted ← readField value "accepted"
  let rejected ← readField value "rejected"
  let inconclusive ← readField value "inconclusive"
  let parseFailures ← readField value "parse_failures"
  let initialSize ← readField value "initial_size"
  let taken ← ((← value.field? "elapsed").getD (.float 0.0)).toDecimal
  return { accepted, rejected, inconclusive, parseFailures, initialSize, startedAt := now - taken }

/-- Counters whose fields are given from outside, as any values. -/
structure Draft where
  accepted : Value
  rejected : Value
  inconclusive : Value
  parseFailures : Value
  initialSize : Value
  startedAt : Value

namespace Draft

def fieldNames : List String :=
  ["accepted", "rejected", "inconclusive", "parse_failures", "initial_size", "started_at"]

/-- The draft with some fields given; what is not given is zero, and a run begins at `now`. -/
def ofValue (fields : Value) (now : Float) : Except Value.Fault Draft := do
  let entries := match fields with
    | .map entries => entries
    | _ => []
  let unknown := entries.find? fun entry => !fieldNames.any (entry.1.same <| .text ·)
  if let some entry := unknown then throw (.unexpectedField "ReductionCounters" entry.1.shown)
  let count (name : String) := (Value.lookup? name entries).getD (.int 0)
  return {
    accepted := count "accepted"
    rejected := count "rejected"
    inconclusive := count "inconclusive"
    parseFailures := count "parse_failures"
    initialSize := count "initial_size"
    startedAt := (Value.lookup? "started_at" entries).getD (.float now) }

/-- The seconds since the run began, which must be a number by then. -/
def elapsed (draft : Draft) (now : Float) : Except Value.Fault Float := do
  if draft.startedAt.number?.isNone then throw (.notSubtractable .float draft.startedAt.kind)
  return now - (← draft.startedAt.toDecimal)

def toValue (draft : Draft) (now : Float) : Except Value.Fault Value := do
  let elapsed ← draft.elapsed now
  return Value.record [
    ("accepted", draft.accepted),
    ("rejected", draft.rejected),
    ("inconclusive", draft.inconclusive),
    ("parse_failures", draft.parseFailures),
    ("initial_size", draft.initialSize),
    ("elapsed", writtenTime elapsed)]

end Draft
end Counters
end Whittle
