import JvmWeave.Decimal.Text
import JvmWeave.JavaType.SourceName

/-!
# Constants that instructions push

A constant is a number, a text, a class or `null`.  Booleans, bytes, shorts and characters are all
integers here, since the virtual machine has no constants of their types.  Of `null` nothing more is
known than that it is an object, and a class literal has the class of classes as its type.

A `StaticValue` is a constant or the knowledge that there is none.  Values that were never looked at
have neither.
-/

set_option autoImplicit false

namespace JvmWeave

inductive Constant where
  | null
  | int (value : Int32)
  | long (value : Int64)
  | float (value : Binary32)
  | double (value : Binary64)
  | string (value : String)
  /-- A class literal. -/
  | classLiteral (type : JavaType)
  deriving DecidableEq, Repr

namespace Constant

def type : Constant → JavaType
  | null => .object
  | int _ => .primitive .int
  | long _ => .primitive .long
  | float _ => .primitive .float
  | double _ => .primitive .double
  | string _ => .string
  | classLiteral _ => .ofBinaryName .classOfClasses

def isWide : Constant → Bool
  | long _ | double _ => true
  | _ => false

/-- Whether two constants are equal, floating-point values being compared as numbers. -/
def agrees : Constant → Constant → Bool
  | float a, float b => a.value.equals b.value
  | double a, double b => a.value.equals b.value
  | a, b => a = b

end Constant

inductive StaticValue where
  | known (constant : Constant)
  /-- It has no value that is known before the program runs. -/
  | unknown
  deriving DecidableEq, Repr

namespace StaticValue

def constant? : StaticValue → Option Constant
  | known c => some c
  | unknown => none

/-- Whether two static values are equal, floating-point values being compared as numbers. -/
def agrees : StaticValue → StaticValue → Bool
  | known a, known b => a.agrees b
  | unknown, unknown => true
  | _, _ => false

end StaticValue

end JvmWeave
