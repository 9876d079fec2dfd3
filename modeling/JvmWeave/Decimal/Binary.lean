/-!
# Binary floating-point numbers as their bits

Constants in annotations and in code may be floating-point numbers.  They are compared and printed,
and nothing is ever computed with them.  So a number is kept as the bits of its interchange format:
nothing is lost, and equality of values that contain numbers stays decidable.

Equality as numbers is another matter: NaN differs from itself, and the two zeros agree although
their bits differ.  Both equalities are there.  The one on bits is that of the data, and `equals` is
for whoever compares numbers as a program would.

`decode` reads the bits into a sign, a significand and a power of two.  The subnormal numbers have
the exponent of the smallest normal ones and lack the leading bit, which is the only case to tell
apart once the special values are gone.  The format is a parameter, as the two widths differ in
nothing else.
-/

set_option autoImplicit false

namespace JvmWeave

/-- The widths of the fields of an interchange format. -/
structure BinaryFormat where
  exponentBits : Nat
  fractionBits : Nat
  deriving DecidableEq, Repr

def BinaryFormat.single : BinaryFormat := ⟨8, 23⟩

def BinaryFormat.double : BinaryFormat := ⟨11, 52⟩

/-- What the bits of a number say. -/
inductive BinaryValue where
  | nan
  | infinity (negative : Bool)
  /-- `significand * 2 ^ exponent`, with a sign that also zero has. -/
  | finite (negative : Bool) (significand : Nat) (exponent : Int)
  deriving DecidableEq, Repr

namespace BinaryFormat

/-- The exponent of the least significant bit of the smallest numbers. -/
def minExponent (f : BinaryFormat) : Int :=
  2 - (1 <<< (f.exponentBits - 1) : Nat) - f.fractionBits

/-- Reads the bits of a number. -/
def decode (f : BinaryFormat) (bits : Nat) : BinaryValue :=
  let fraction := bits % (1 <<< f.fractionBits)
  let field := (bits >>> f.fractionBits) % (1 <<< f.exponentBits)
  let negative := (bits >>> (f.fractionBits + f.exponentBits)) % 2 == 1
  if field = (1 <<< f.exponentBits) - 1 then
    if fraction = 0 then .infinity negative else .nan
  else if field = 0 then .finite negative fraction f.minExponent
  else
    .finite negative ((1 <<< f.fractionBits) + fraction) (f.minExponent + (field - 1 : Nat))

end BinaryFormat

structure Binary32 where
  bits : UInt32
  deriving DecidableEq, Repr

structure Binary64 where
  bits : UInt64
  deriving DecidableEq, Repr

def Binary32.value (x : Binary32) : BinaryValue :=
  BinaryFormat.single.decode x.bits.toNat

def Binary64.value (x : Binary64) : BinaryValue :=
  BinaryFormat.double.decode x.bits.toNat

/-- Equality of numbers that are in the same format. -/
def BinaryValue.equals : BinaryValue → BinaryValue → Bool
  | nan, _ | _, nan => false
  | infinity a, infinity b => a = b
  | finite a m p, finite b n q => (m = 0 && n = 0) || (a = b && m = n && p = q)
  | _, _ => false

end JvmWeave
