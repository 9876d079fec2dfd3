/-!
# Tables of characters

A property of characters is given by a list of ranges in ascending order.  Scripts that alternate
capital and small letters are kept short by a range with step two.

The tables in other modules hold hundreds of ranges.  As the list is ordered, the search for a code
point stops at the first range that begins beyond it, and with most text that is near the start.
-/

set_option autoImplicit false

namespace JvmWeave.Text

/-- The code points `first`, `first + step`, … up to `last`. -/
structure CharRange where
  first : Nat
  last : Nat
  step : Nat
  deriving DecidableEq, Repr

/-- Whether a code point is in one of the ranges, which are in ascending order. -/
def CharRange.anyContains : List CharRange → Nat → Bool
  | [], _ => false
  | r :: rs, n =>
    if n < r.first then false
    else if n ≤ r.last then (n - r.first) % r.step == 0
    else anyContains rs n

end JvmWeave.Text
