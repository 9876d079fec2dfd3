import JvmWeave.Decimal.Shortest

/-!
# Floating-point numbers as text

The digits are always the shortest ones that read back.  The two texts of a number differ in how
they are laid out.  In plain text they are written out without an exponent, however many zeros that
takes, and whole numbers without a point.  In diagnostics whole numbers end with `.0`, so that they
are not mistaken for integers, and very large and very small numbers have an exponent.

What the two have in common is `textWith`: the special values, the sign and zero.  Zero has no
shortest digits, so each layout brings its own text for it.
-/

set_option autoImplicit false

namespace JvmWeave.Decimal

/-- The digits with a point so that `exponent` counts from their end, and at least `places` digits
after the point. -/
def positional (places : Nat) (d : Decimal) : String :=
  let digits := Nat.toDigits 10 d.digits
  if 0 ≤ d.exponent then
    let fraction := if places = 0 then [] else '.' :: List.replicate places '0'
    String.ofList (digits ++ List.replicate d.exponent.toNat '0' ++ fraction)
  else
    let count := (-d.exponent).toNat
    let padded := List.replicate (count + 1 - digits.length) '0' ++ digits
    let whole := padded.length - count
    String.ofList (padded.take whole ++ '.' :: padded.drop whole)

def magnitude (d : Decimal) : Int :=
  d.exponent + (Nat.toDigits 10 d.digits).length - 1

/-- One digit before the point, and the exponent behind an `e`. -/
def scientific (d : Decimal) : String :=
  let mantissa :=
    match Nat.toDigits 10 d.digits with
    | [] => []
    | [digit] => [digit]
    | digit :: fraction => digit :: '.' :: fraction
  String.ofList mantissa ++ "e" ++ toString d.magnitude

/-- The text of a number, with `write` for the digits of a number that is not zero. -/
def textWith (f : BinaryFormat) (zero : String) (write : Decimal → String) : BinaryValue → String
  | .nan => "NaN"
  | .infinity negative => (if negative then "-" else "") ++ "inf"
  | .finite negative significand exponent =>
    (if negative then "-" else "") ++
      if significand = 0 then zero else write (shortest f significand exponent)

def plain (f : BinaryFormat) : BinaryValue → String :=
  textWith f "0" (positional 0)

/-- The number in diagnostics: positional from `10 ^ -4` up to but not including `10 ^ 16`. -/
def diagnostic (f : BinaryFormat) : BinaryValue → String :=
  textWith f "0.0" fun d =>
    if -4 ≤ d.magnitude ∧ d.magnitude < 16 then d.positional 1 else d.scientific

end JvmWeave.Decimal

namespace JvmWeave

def Binary32.text (x : Binary32) : String := Decimal.plain .single x.value

def Binary64.text (x : Binary64) : String := Decimal.plain .double x.value

def Binary32.diagnostic (x : Binary32) : String := Decimal.diagnostic .single x.value

def Binary64.diagnostic (x : Binary64) : String := Decimal.diagnostic .double x.value

end JvmWeave
