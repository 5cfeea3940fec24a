/-!
# Sets of characters given by ranges

The classes of characters in the modules beside this one are tables of a published standard. Each
is a list of inclusive ranges of code points, in increasing order.
-/

namespace LetWhile

/-- Whether a code point lies in one of the inclusive ranges. -/
def inRanges (ranges : List (Nat × Nat)) (code : Nat) : Bool :=
  ranges.any fun r => r.1 ≤ code && code ≤ r.2

end LetWhile
