/-!
Classes of characters by runs of code points: from the first code point on, so many are outside of
the class, then so many in it, and so on in turn.
-/

namespace Whittle.Text

/-- Whether a code point, counted from where some runs begin, is in the class; `inside` tells whether
the first of the runs is. -/
def inRuns (inside : Bool) (code : Nat) : List Nat → Bool
  | [] => false
  | length :: rest => if code < length then inside else inRuns (!inside) (code - length) rest

end Whittle.Text
