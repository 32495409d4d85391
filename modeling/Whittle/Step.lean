import Whittle.Failure

/-!
Steps: actions on a state that may fail. What a step did before it failed stays
done.
-/

namespace Whittle

abbrev Step (σ α : Type) := ExceptT Failure (StateM σ) α

namespace Step

def runOn {σ α : Type} (step : Step σ α) (state : σ) : Except Failure α × σ :=
  (ExceptT.run step).run state

/-- The answer of a computation that does not touch the state. -/
def lift {σ α : Type} : Except Failure α → Step σ α
  | .ok value => pure value
  | .error failure => throw failure

/-- The answer of a step, or the failure that it ended with. -/
def attempt {σ α : Type} (step : Step σ α) : Step σ (Except Failure α) :=
  fun state =>
    let (result, after) := step.runOn state
    (.ok result, after)

/-- Runs a step on a part of the state. -/
def within {σ τ α : Type} (get : σ → τ) (set : τ → σ → σ) (step : Step τ α) : Step σ α :=
  fun state =>
    let (result, part) := step.runOn (get state)
    (result, set part state)

end Step
end Whittle
