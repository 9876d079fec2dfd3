import JvmWeave.AccessFlags
import JvmWeave.Instruction.Basic

/-!
# The bytes of instructions

An instruction is an opcode and its operands, and numbers are written with the most significant byte
first.  The shortest encoding is taken wherever an instruction has several.  For loads and stores
there are three: slots up to three are part of the opcode, slots up to 255 take a byte, and larger
ones two bytes and a prefix.

The bytes of an instruction are a list and exist before they are written anywhere.  `Bytes.into` is
the only way in which writing can fail: the place is too small, and then there are no bytes at all.
-/

set_option autoImplicit false

namespace JvmWeave

structure BufferFull where
  deriving DecidableEq, Repr

def BufferFull.message (_ : BufferFull) : String :=
  "I/O error: failed to write whole buffer"

namespace Bytes

def ofUInt8 (n : UInt8) : List UInt8 := [n]

def ofUInt16 (n : UInt16) : List UInt8 := [(n >>> 8).toUInt8, n.toUInt8]

def ofInt8 (n : Int8) : List UInt8 := [n.toUInt8]

def ofInt16 (n : Int16) : List UInt8 := ofUInt16 n.toUInt16

/-- The bytes, if they fit into a place of some capacity. -/
def into (capacity : Nat) (bytes : List UInt8) : Except BufferFull (List UInt8) :=
  if bytes.length ≤ capacity then .ok bytes else .error {}

end Bytes

def AccessFlags.bytes (a : AccessFlags) : List UInt8 :=
  Bytes.ofUInt16 a.bits

namespace Instruction

/-- The opcode in front of a load or store whose slot takes two bytes. -/
def wide : UInt8 := 0xC4

/-- A load or store.  Slots up to three are part of the opcode, slots up to 255 take a byte, and
larger slots take two bytes and the prefix `wide`. -/
def slotBytes (shortOpcode opcode : UInt8) (slot : UInt16) : List UInt8 :=
  if slot.toNat ≤ 3 then [shortOpcode + slot.toUInt8]
  else if slot.toNat ≤ 255 then [opcode, slot.toUInt8]
  else wide :: opcode :: Bytes.ofUInt16 slot

/-- The bytes of the instruction. -/
def bytes : Instruction → List UInt8
  | pushNull => [0x01]
  | intConst k => [0x02 + UInt8.ofNat k.val]
  | longConst k => [0x09 + UInt8.ofNat k.val]
  | floatConst k => [0x0B + UInt8.ofNat k.val]
  | doubleConst k => [0x0E + UInt8.ofNat k.val]
  | pushByte n => 0x10 :: Bytes.ofInt8 n
  | pushShort n => 0x11 :: Bytes.ofInt16 n
  | pushPool index constant =>
    if constant.isWide then 0x14 :: Bytes.ofUInt16 index
    else if index.toNat ≤ 255 then [0x12, index.toUInt8]
    else 0x13 :: Bytes.ofUInt16 index
  | load family slot => slotBytes family.shortLoadOpcode family.loadOpcode slot
  | store family slot => slotBytes family.shortStoreOpcode family.storeOpcode slot
  | pop => [0x57]
  | popWide => [0x58]
  | ret none => [0xB1]
  | ret (some family) => [family.returnOpcode]
  | throw => [0xBF]

end Instruction

end JvmWeave
