import Whittle.Bytes

/-!
Splices: replacements of byte ranges. A list of splices applies to a buffer when
the ranges lie inside it, in order and without overlap.
-/

namespace Whittle

/-- Replaces the bytes from `start` up to `stop`. -/
structure Splice where
  start : Int
  stop : Int
  replacement : Bytes := []
deriving DecidableEq, Repr, Inhabited

namespace Splice

def delta (splice : Splice) : Int :=
  splice.replacement.length - (splice.stop - splice.start)

/-- A splice may be applied once the first `position` bytes are used up. -/
def Fits (splice : Splice) (position : Nat) (size : Nat) : Prop :=
  (position : Int) ≤ splice.start ∧ splice.start ≤ splice.stop ∧ splice.stop ≤ size

instance (splice : Splice) (position size : Nat) : Decidable (splice.Fits position size) :=
  inferInstanceAs (Decidable (_ ∧ _ ∧ _))

/-- Applies the splices to `rest`, which a buffer of `size` bytes has from `position` on, or answers
the first that does not fit. -/
def applyFrom (size position : Nat) (rest : Bytes) : List Splice → Except Splice Bytes
  | [] => .ok rest
  | splice :: others =>
    if splice.Fits position size then
      let kept := rest.take (splice.start - position).toNat
      let after := rest.drop (splice.stop - position).toNat
      (applyFrom size splice.stop.toNat after others).map fun tail =>
        kept ++ splice.replacement ++ tail
    else
      .error splice

def applyAll (splices : List Splice) (buffer : Bytes) : Except Splice Bytes :=
  applyFrom buffer.length 0 buffer splices

end Splice
end Whittle
