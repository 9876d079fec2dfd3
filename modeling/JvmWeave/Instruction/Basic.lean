import JvmWeave.Fragment.Outcome
import JvmWeave.Instruction.Constant
import JvmWeave.Storage

/-!
# Instructions

The instructions that join pieces of code: they push constants, move values between the operand
stack and the local slots, drop values and leave the method.  Code that does more than that is only
ever met as a fragment, never as instructions.

Instructions that differ in a small number are one constructor.  Loads and stores have three
encodings for small, medium and large slots, and so has the constant pool for its indices; which of
them is used is decided when the instruction is written.  The pushes of small constants are indexed
by their distance from the first of them, as their opcodes are.

The type of a value decides the instruction through its storage class, and there are types that have
none.  `loadOf`, `storeOf`, `popOf` and `returnOf` fail on those and on nothing else, but for
`returnOf` that has a case for no value.

`staticValue` says what an instruction pushes, and an instruction that pushes nothing has an unknown
value rather than none.
-/

set_option autoImplicit false

namespace JvmWeave

inductive Instruction where
  | pushNull
  /-- Pushes one of the integers from -1 on. -/
  | intConst (successor : Fin 7)
  | longConst (value : Fin 2)
  | floatConst (value : Fin 3)
  | doubleConst (value : Fin 2)
  | pushByte (value : Int8)
  | pushShort (value : Int16)
  /-- Pushes a constant of the constant pool. -/
  | pushPool (index : UInt16) (constant : Constant)
  | load (family : StorageClass) (slot : UInt16)
  | store (family : StorageClass) (slot : UInt16)
  | pop
  /-- Drops a value of two slots. -/
  | popWide
  /-- Leaves the method, with a value unless there is none. -/
  | ret (family : Option StorageClass)
  | throw
  deriving DecidableEq, Repr

namespace Instruction

/-- The instructions that have no operands, but for the returns. -/
def withoutOperands : List Instruction :=
  [pushNull] ++ (List.finRange 7).map intConst ++ (List.finRange 2).map longConst ++
    (List.finRange 3).map floatConst ++ (List.finRange 2).map doubleConst ++ [pop, popWide, throw]

def smallInt (successor : Fin 7) : Int :=
  (successor.val : Int) - 1

def loadOf (t : JavaType) (slot : UInt16) : Except UnstorableType Instruction :=
  (StorageClass.ofType t).map (.load · slot)

def storeOf (t : JavaType) (slot : UInt16) : Except UnstorableType Instruction :=
  (StorageClass.ofType t).map (.store · slot)

def popOf (t : JavaType) : Except UnstorableType Instruction :=
  (StorageClass.ofType t).map fun c => if c.width = 2 then .popWide else .pop

/-- The instruction that leaves a method with a result of a type. -/
def returnOf (t : JavaType) : Except UnstorableType Instruction :=
  if t.category = .primitive .void then .ok (.ret none)
  else (StorageClass.ofType t).map fun c => .ret (some c)

/-- The shortest instruction that pushes an integer without the constant pool. -/
def pushInt? (value : Int32) : Option Instruction :=
  let n := value.toInt
  if h : -1 ≤ n ∧ n ≤ 5 then some (.intConst ⟨(n + 1).toNat, by omega⟩)
  else if -128 ≤ n ∧ n ≤ 127 then some (.pushByte value.toInt8)
  else if -32768 ≤ n ∧ n ≤ 32767 then some (.pushShort value.toInt16)
  else none

def smallFloat : Fin 3 → Binary32
  | 0 => ⟨0x00000000⟩
  | 1 => ⟨0x3F800000⟩
  | 2 => ⟨0x40000000⟩

def smallDouble : Fin 2 → Binary64
  | 0 => ⟨0x0000000000000000⟩
  | 1 => ⟨0x3FF0000000000000⟩

/-- What is known of the value that the instruction pushes. -/
def staticValue : Instruction → StaticValue
  | pushNull => .known .null
  | intConst k => .known (.int (Int32.ofInt (smallInt k)))
  | longConst k => .known (.long (Int64.ofInt k.val))
  | floatConst k => .known (.float (smallFloat k))
  | doubleConst k => .known (.double (smallDouble k))
  | pushByte n => .known (.int n.toInt32)
  | pushShort n => .known (.int n.toInt32)
  | pushPool _ constant => .known constant
  | _ => .unknown

def outcome : Instruction → Outcome
  | ret _ => .returned
  | throw => .thrown
  | _ => .onward

def text : Instruction → String
  | pushNull => "aconst_null"
  | intConst k => if k = 0 then "iconst_m1" else "iconst_" ++ toString (smallInt k)
  | longConst k => "lconst_" ++ toString k.val
  | floatConst k => "fconst_" ++ toString k.val
  | doubleConst k => "dconst_" ++ toString k.val
  | pushByte n => "bipush " ++ toString n.toInt
  | pushShort n => "sipush " ++ toString n.toInt
  | pushPool index _ => "ldc #" ++ toString index.toNat
  | load family slot => family.letter ++ "load " ++ toString slot.toNat
  | store family slot => family.letter ++ "store " ++ toString slot.toNat
  | pop => "pop"
  | popWide => "pop2"
  | ret none => "return"
  | ret (some family) => family.letter ++ "return"
  | throw => "athrow"

/-- Whether two instructions are equal, floating-point values being compared as numbers. -/
def agrees : Instruction → Instruction → Bool
  | pushPool i a, pushPool j b => i = j && a.agrees b
  | a, b => a = b

end Instruction

end JvmWeave
