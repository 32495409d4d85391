/-!
Searching a run that is in order for the first item that fails a test. The search
begins at a guess, goes away from it in steps that double, and halves what is left.
A test may have no answer; then the search has none.
-/

namespace Whittle.Sorting

variable {ε : Type}

/-- The first place between `low` and `high` at which the test fails, found by halving. -/
def halve (passes : Nat → Except ε Bool) (low high : Nat) : Except ε Nat :=
  if _ : low < high then do
    let middle := low + (high - low) / 2
    if ← passes middle then halve passes (middle + 1) high else halve passes low middle
  else .ok low
termination_by high - low

/-- Goes on in steps that double while the test passes, up to a limit; answers the last distance at
which it passed and the one after it. -/
def stride (passes : Nat → Except ε Bool) (limit last next : Nat) : Except ε (Nat × Nat) :=
  if _ : next < limit then do
    if ← passes next then stride passes limit next (2 * next + 1) else return (last, next)
  else .ok (last, limit)
termination_by limit - next

/-- The number of items, out of `count`, before the first that fails the test, where `guess` is one
of them. -/
def countPassing (passes : Nat → Except ε Bool) (count guess : Nat) : Except ε Nat := do
  if ← passes guess then
    let (last, next) ← stride (fun step => passes (guess + step)) (count - guess) 0 1
    halve passes (guess + last + 1) (guess + next)
  else
    let (last, next) ← stride (fun step => not <$> passes (guess - step)) (guess + 1) 0 1
    halve passes (guess + 1 - next) (guess - last)

end Whittle.Sorting
