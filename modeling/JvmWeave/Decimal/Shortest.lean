import JvmWeave.Decimal.Binary

/-!
# The shortest decimal of a binary floating-point number

Every decimal between the midpoints to the two neighbours of a number reads back as that number; a
midpoint itself does so if the significand is even.  Of these decimals the one with the fewest
digits is printed.

Grids of powers of ten are tried from coarse to fine, and on each the two points around the number.
The first grid with a point that reads back has the fewest digits; of two such points the nearer is
taken, and the upper one in the middle.

All of this is integer arithmetic.  Lengths are counted in a unit for which the number and both
midpoints are integers, and a finer grid is reached by multiplying the number and the distances by
ten instead of dividing the grid.  How many grids there can be is known beforehand, since a grid
that is narrower than the distance to a midpoint has a point that reads back.
-/

set_option autoImplicit false

namespace JvmWeave

structure Decimal where
  digits : Nat
  exponent : Int
  deriving DecidableEq, Repr

namespace Decimal

/-- The search on the grid of `10 ^ exponent` and, for at most `steps` grids, on finer ones.  All
lengths are counted in a unit in which the grid has the width `grid`: the number is `value`, and
`below` and `above` are the distances to the midpoints. -/
def shortestOnGrids (closed : Bool) (value below above grid : Nat) (exponent : Int) :
    Nat → Decimal
  | 0 => ⟨value / grid, exponent⟩
  | steps + 1 =>
    let distance := value % grid
    let lower := distance < below || (closed && distance = below)
    let upper := grid - distance < above || (closed && grid - distance = above)
    if upper && (!lower || grid ≤ 2 * distance) then ⟨value / grid + 1, exponent⟩
    else if lower then ⟨value / grid, exponent⟩
    else
      shortestOnGrids closed (10 * value) (10 * below) (10 * above) grid (exponent - 1) steps

def digitCount (n : Nat) : Nat :=
  (Nat.toDigits 10 n).length

/-- The shortest decimal of `significand * 2 ^ exponent`, where `significand` is not zero.  At a
power of two the neighbour below is only half as far away as the one above. -/
def shortest (f : BinaryFormat) (significand : Nat) (exponent : Int) : Decimal :=
  let below := if significand = 1 <<< f.fractionBits then 1 else 2
  let scale := 1 <<< exponent.toNat
  let unit := 4 <<< (-exponent).toNat
  let value := 4 * significand * scale
  let coarsest := digitCount (value / unit)
  shortestOnGrids (significand % 2 = 0) value (below * scale) (2 * scale)
    (unit * Nat.pow 10 coarsest) coarsest (coarsest + digitCount unit + 1)

end Decimal

end JvmWeave
