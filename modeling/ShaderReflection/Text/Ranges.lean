/-!
# Sets of code points

A set of code points is kept as a list of closed ranges in ascending order.
-/

namespace ShaderReflection.Text

/-- Whether a code point lies in one of the ranges. The ranges ascend, so the search ends at the
first one that begins after the code point. -/
def inRanges : List (Nat × Nat) → Nat → Bool
  | [], _ => false
  | (low, high) :: rest, code =>
      if code < low then false else decide (code ≤ high) || inRanges rest code

/-- Ranges that ascend and leave at least one code point between neighbours. -/
def Ascending : List (Nat × Nat) → Prop
  | [] => True
  | [(low, high)] => low ≤ high
  | (low, high) :: (next, last) :: rest =>
      low ≤ high ∧ high + 1 < next ∧ Ascending ((next, last) :: rest)

end ShaderReflection.Text
