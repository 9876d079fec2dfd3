import JvmWeave.JavaType.SourceName

/-!
# Storage classes

Which family of instructions handles the values of a type.  There are five: all small integers are
held as `int`, and all classes and arrays as references.  A type without values, and one of which it
is not known what its values are, has no storage class, and asking for one is an error that names
the type.

The opcodes of a kind of instruction lie next to each other in the order of the families, so each is
given as the first one and the `index` of the family.  For the first four slots there are shorter
instructions, four to a family, hence the factor of four in `shortLoadOpcode` and
`shortStoreOpcode`.  Nothing but these sums is known about opcodes of loads and stores; that the
ranges do not meet, so that an instruction can be told by its first byte, is a fact about the
numbers.
-/

set_option autoImplicit false

namespace JvmWeave

/-- A family of instructions for values of one kind. -/
inductive StorageClass where
  | int
  | long
  | float
  | double
  | reference
  deriving DecidableEq, Repr

/-- A type whose values are not held in slots: there are none, or it is not known which. -/
structure UnstorableType where
  type : JavaType
  deriving DecidableEq, Repr

def UnstorableType.message (e : UnstorableType) : String :=
  "values of type " ++ e.type.javaName ++ " (" ++ e.type.category.name ++
    ") can't be loaded or stored"

namespace StorageClass

/-- Every storage class once. -/
def all : List StorageClass :=
  [int, long, float, double, reference]

def name : StorageClass → String
  | int => "int"
  | long => "long"
  | float => "float"
  | double => "double"
  | reference => "reference"

def ofPrimitive? : Primitive → Option StorageClass
  | .boolean | .byte | .char | .short | .int => some int
  | .long => some long
  | .float => some float
  | .double => some double
  | .void => none

def ofCategory? : Category → Option StorageClass
  | .primitive p => ofPrimitive? p
  | .array | .classType => some reference
  | .value | .union => none

def ofType (t : JavaType) : Except UnstorableType StorageClass :=
  match ofCategory? t.category with
  | some c => .ok c
  | none => .error ⟨t⟩

/-- The number of slots that a value takes. -/
def width : StorageClass → Nat
  | long | double => 2
  | _ => 1

/-- The position of the family in the tables of opcodes. -/
def index : StorageClass → UInt8
  | int => 0
  | long => 1
  | float => 2
  | double => 3
  | reference => 4

def loadOpcode (c : StorageClass) : UInt8 := 0x15 + c.index

/-- The opcode that loads from slot zero; those for slots one to three follow it. -/
def shortLoadOpcode (c : StorageClass) : UInt8 := 0x1A + 4 * c.index

def storeOpcode (c : StorageClass) : UInt8 := 0x36 + c.index

/-- The opcode that stores into slot zero; those for slots one to three follow it. -/
def shortStoreOpcode (c : StorageClass) : UInt8 := 0x3B + 4 * c.index

def returnOpcode (c : StorageClass) : UInt8 := 0xAC + c.index

/-- The letter in front of the names of the family's instructions. -/
def letter : StorageClass → String
  | int => "i"
  | long => "l"
  | float => "f"
  | double => "d"
  | reference => "a"

end StorageClass

end JvmWeave
