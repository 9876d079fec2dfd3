import Mathlib.Data.List.Forall2
import JvmWeave.Instruction.Encode

/-!
# Reading code

Instructions are written one after another, without anything in between.  The first byte of an
instruction tells how many bytes follow it, and no two instructions have the same bytes, but for the
constants of the pool, of which only the index and the width are written.  So there is a reader that
gives code back up to these constants, and code is determined by its bytes as far as that
(`flatMap_bytes_eq_iff`).

Most instructions are a single byte.  That no two of these bytes are the same is one look at the
list of them all.
-/

set_option autoImplicit false

namespace JvmWeave

namespace Bytes

def toUInt16 (high low : UInt8) : UInt16 :=
  UInt16.ofNat (256 * high.toNat + low.toNat)

theorem toUInt16_ofUInt16 (n : UInt16) : toUInt16 (n >>> 8).toUInt8 n.toUInt8 = n := by
  apply UInt16.toNat.inj
  have := n.toNat_lt
  simp [toUInt16, Nat.shiftRight_eq_div_pow]
  omega

theorem toUInt16_toUInt8 {n : UInt16} (h : n.toNat ≤ 255) : n.toUInt8.toUInt16 = n := by
  apply UInt16.toNat.inj
  simp
  omega

end Bytes

theorem StorageClass.mem_all (c : StorageClass) : c ∈ all := by
  cases c <;> simp [all]

namespace Instruction

/-! ## The reader -/

/-- The slots that are part of the opcode. -/
def shortSlots : List UInt16 :=
  [0, 1, 2, 3]

/-- The instructions that are a single byte. -/
def singles : List Instruction :=
  withoutOperands ++ ret none :: StorageClass.all.map (ret ∘ some) ++
    StorageClass.all.flatMap (fun c => shortSlots.map (load c)) ++
    StorageClass.all.flatMap (fun c => shortSlots.map (store c))

/-- The instruction that is this byte. -/
def ofByte? (b : UInt8) : Option Instruction :=
  singles.find? fun i => i.bytes = [b]

/-- The load or store with an opcode that is followed by the slot. -/
def ofSlotOpcode? (opcode : UInt8) : Option (UInt16 → Instruction) :=
  match StorageClass.all.find? (·.loadOpcode = opcode) with
  | some c => some (load c)
  | none => (StorageClass.all.find? (·.storeOpcode = opcode)).map store

def readByte (make : UInt8 → Instruction) : List UInt8 → Option (Instruction × List UInt8)
  | b :: rest => some (make b, rest)
  | [] => none

/-- Makes an instruction of a number of two bytes. -/
def readPair (make : UInt16 → Instruction) : List UInt8 → Option (Instruction × List UInt8)
  | high :: low :: rest => some (make (Bytes.toUInt16 high low), rest)
  | _ => none

/-- Reads what follows an opcode that is no instruction by itself.  The code does not hold the
constants of the pool: `null` stands for those of one slot, and zero for those of two. -/
def readOperands (opcode : UInt8) (bytes : List UInt8) : Option (Instruction × List UInt8) :=
  match ofSlotOpcode? opcode with
  | some make => readByte (fun b => make b.toUInt16) bytes
  | none =>
    if opcode = 0x10 then readByte (fun b => pushByte b.toInt8) bytes
    else if opcode = 0x11 then readPair (fun n => pushShort n.toInt16) bytes
    else if opcode = 0x12 then readByte (fun b => pushPool b.toUInt16 .null) bytes
    else if opcode = 0x13 then readPair (fun n => pushPool n .null) bytes
    else if opcode = 0x14 then readPair (fun n => pushPool n (.long 0)) bytes
    else if opcode = wide then
      match bytes with
      | slotOpcode :: bytes => (ofSlotOpcode? slotOpcode).bind fun make => readPair make bytes
      | [] => none
    else none

/-- Reads the instruction at the start of the bytes, and gives the bytes behind it. -/
def read : List UInt8 → Option (Instruction × List UInt8)
  | [] => none
  | opcode :: bytes =>
    match ofByte? opcode with
    | some i => some (i, bytes)
    | none => readOperands opcode bytes

theorem length_le_of_readByte {make : UInt8 → Instruction} {bytes rest : List UInt8}
    {i : Instruction} (h : readByte make bytes = some (i, rest)) :
    rest.length ≤ bytes.length := by
  cases bytes with
  | nil => cases h
  | cons b bytes => cases h; simp

theorem length_le_of_readPair {make : UInt16 → Instruction} {bytes rest : List UInt8}
    {i : Instruction} (h : readPair make bytes = some (i, rest)) :
    rest.length ≤ bytes.length := by
  unfold readPair at h
  split at h
  · cases h
    simp only [List.length_cons]
    omega
  · cases h

theorem length_le_of_readOperands {opcode : UInt8} {bytes rest : List UInt8} {i : Instruction}
    (h : readOperands opcode bytes = some (i, rest)) : rest.length ≤ bytes.length := by
  unfold readOperands at h
  split at h
  · exact length_le_of_readByte h
  · split_ifs at h
    · exact length_le_of_readByte h
    · exact length_le_of_readPair h
    · exact length_le_of_readByte h
    · exact length_le_of_readPair h
    · exact length_le_of_readPair h
    · split at h
      · obtain ⟨make, -, h⟩ := Option.bind_eq_some_iff.mp h
        exact Nat.le_succ_of_le (length_le_of_readPair h)
      · cases h

theorem length_lt_of_read {bytes rest : List UInt8} {i : Instruction}
    (h : read bytes = some (i, rest)) : rest.length < bytes.length := by
  unfold read at h
  split at h
  · cases h
  · split at h
    · cases h
      simp
    · exact Nat.lt_succ_of_le (length_le_of_readOperands h)

/-- Reads instructions to the end of the bytes. -/
def readAll (bytes : List UInt8) : Option (List Instruction) :=
  if bytes = [] then some []
  else
    match _h : read bytes with
    | some (i, rest) => (readAll rest).map (i :: ·)
    | none => none
termination_by bytes.length
decreasing_by exact length_lt_of_read _h

/-! ## Single bytes -/

theorem ofByte?_of_mem_singles :
    ∀ i ∈ singles, ∃ b ∈ i.bytes, i.bytes = [b] ∧ ofByte? b = some i := by
  decide +kernel

theorem read_of_mem_singles {i : Instruction} (h : i ∈ singles) (rest : List UInt8) :
    read (i.bytes ++ rest) = some (i, rest) := by
  obtain ⟨b, -, hb, hi⟩ := ofByte?_of_mem_singles i h
  rw [hb, List.singleton_append, read, hi]

theorem mem_shortSlots {slot : UInt16} (h : slot.toNat ≤ 3) : slot ∈ shortSlots := by
  simp [shortSlots, ← UInt16.toNat_inj]
  omega

theorem ret_mem_singles (family : Option StorageClass) : ret family ∈ singles := by
  cases family <;> simp [singles, StorageClass.mem_all]

theorem load_mem_singles (c : StorageClass) {slot : UInt16} (h : slot ∈ shortSlots) :
    load c slot ∈ singles := by
  simp [singles, StorageClass.mem_all, h]

theorem store_mem_singles (c : StorageClass) {slot : UInt16} (h : slot ∈ shortSlots) :
    store c slot ∈ singles := by
  simp [singles, StorageClass.mem_all, h]

/-! ## Loads and stores -/

/-- The opcode makes loads or stores of the slots behind it, and is no instruction by itself. -/
structure IsSlotOpcode (opcode : UInt8) (make : UInt16 → Instruction) : Prop where
  noByte : ofByte? opcode = none
  ofSlotOpcode : ofSlotOpcode? opcode = some make
  short : ∀ slot ∈ shortSlots, make slot ∈ singles

theorem isSlotOpcode_load (c : StorageClass) : IsSlotOpcode c.loadOpcode (load c) := by
  refine ⟨?_, ?_, fun _ => load_mem_singles c⟩
  · cases c <;> decide +kernel
  · cases c <;> rfl

theorem isSlotOpcode_store (c : StorageClass) : IsSlotOpcode c.storeOpcode (store c) := by
  refine ⟨?_, ?_, fun _ => store_mem_singles c⟩
  · cases c <;> decide +kernel
  · cases c <;> rfl

theorem read_operands {opcode : UInt8} (hb : ofByte? opcode = none) (bytes : List UInt8) :
    read (opcode :: bytes) = readOperands opcode bytes := by
  rw [read, hb]

theorem read_wide (opcode : UInt8) (bytes : List UInt8) : read (wide :: opcode :: bytes) =
    (ofSlotOpcode? opcode).bind fun make => readPair make bytes := by
  rw [read_operands (by decide +kernel)]
  rfl

/-- All three forms of a load or store are read back. -/
theorem IsSlotOpcode.read_bytes {opcode short : UInt8} {make : UInt16 → Instruction}
    (h : IsSlotOpcode opcode make)
    (hb : ∀ slot, (make slot).bytes = slotBytes short opcode slot) (slot : UInt16)
    (rest : List UInt8) : read ((make slot).bytes ++ rest) = some (make slot, rest) := by
  by_cases h3 : slot.toNat ≤ 3
  · exact read_of_mem_singles (h.short slot (mem_shortSlots h3)) rest
  · rw [hb, slotBytes, if_neg h3]
    by_cases h255 : slot.toNat ≤ 255
    · rw [if_pos h255, List.cons_append, read_operands h.noByte]
      unfold readOperands
      rw [h.ofSlotOpcode]
      simp [readByte, Bytes.toUInt16_toUInt8 h255]
    · rw [if_neg h255, List.cons_append, List.cons_append, read_wide, h.ofSlotOpcode]
      simp [readPair, Bytes.ofUInt16, Bytes.toUInt16_ofUInt16]

/-! ## Pushes with operands -/

theorem read_pushByte (n : Int8) (rest : List UInt8) :
    read ((pushByte n).bytes ++ rest) = some (pushByte n, rest) := by
  rw [bytes, List.cons_append, read_operands (by decide +kernel)]
  change some (pushByte n.toUInt8.toInt8, rest) = _
  rw [Int8.toInt8_toUInt8]

theorem read_pushShort (n : Int16) (rest : List UInt8) :
    read ((pushShort n).bytes ++ rest) = some (pushShort n, rest) := by
  rw [bytes, List.cons_append, read_operands (by decide +kernel)]
  change some (pushShort (Bytes.toUInt16 _ _).toInt16, rest) = _
  rw [Bytes.toUInt16_ofUInt16, Int16.toInt16_toUInt16]

/-- The instruction with the constant that the reader gives for all constants of its width. -/
def withoutConstant : Instruction → Instruction
  | pushPool index constant => pushPool index (if constant.isWide then .long 0 else .null)
  | i => i

theorem read_pushPool (index : UInt16) (constant : Constant) (rest : List UInt8) :
    read ((pushPool index constant).bytes ++ rest) =
      some ((pushPool index constant).withoutConstant, rest) := by
  rw [bytes, withoutConstant]
  by_cases hwide : constant.isWide
  · rw [if_pos hwide, if_pos hwide, List.cons_append, read_operands (by decide +kernel)]
    change some (pushPool (Bytes.toUInt16 _ _) _, rest) = _
    rw [Bytes.toUInt16_ofUInt16]
  · rw [if_neg hwide, if_neg hwide]
    by_cases h255 : index.toNat ≤ 255
    · rw [if_pos h255, List.cons_append, read_operands (by decide +kernel)]
      change some (pushPool index.toUInt8.toUInt16 _, rest) = _
      rw [Bytes.toUInt16_toUInt8 h255]
    · rw [if_neg h255, List.cons_append, read_operands (by decide +kernel)]
      change some (pushPool (Bytes.toUInt16 _ _) _, rest) = _
      rw [Bytes.toUInt16_ofUInt16]

/-! ## Code -/

/-- Whatever follows an instruction, reading gives the instruction and what follows. -/
theorem read_bytes (i : Instruction) (rest : List UInt8) :
    read (i.bytes ++ rest) = some (i.withoutConstant, rest) := by
  cases i with
  | pushByte n => exact read_pushByte n rest
  | pushShort n => exact read_pushShort n rest
  | pushPool index constant => exact read_pushPool index constant rest
  | load family slot => exact (isSlotOpcode_load family).read_bytes (fun _ => rfl) slot rest
  | store family slot => exact (isSlotOpcode_store family).read_bytes (fun _ => rfl) slot rest
  | ret family => exact read_of_mem_singles (ret_mem_singles family) rest
  | intConst k | longConst k | floatConst k | doubleConst k =>
    exact read_of_mem_singles (by simp [singles, withoutOperands]) rest
  | pushNull | pop | popWide | throw =>
    exact read_of_mem_singles (by simp [singles, withoutOperands]) rest

theorem bytes_ne_nil (i : Instruction) : i.bytes ≠ [] := by
  intro h
  have := read_bytes i []
  rw [h] at this
  cases this

theorem readAll_bytes_append (i : Instruction) (rest : List UInt8) :
    readAll (i.bytes ++ rest) = (readAll rest).map (i.withoutConstant :: ·) := by
  rw [readAll, if_neg (by simp [bytes_ne_nil]), read_bytes]

/-- Code is read back, but for the constants of the pool. -/
theorem readAll_flatMap_bytes (is : List Instruction) :
    readAll (is.flatMap bytes) = some (is.map withoutConstant) := by
  induction is with
  | nil => rw [List.flatMap_nil, readAll, if_pos rfl, List.map_nil]
  | cons i is ih => rw [List.flatMap_cons, readAll_bytes_append, ih, Option.map_some, List.map_cons]

/-- The instructions are the same but for their constants, which are of the same width. -/
inductive SameCode : Instruction → Instruction → Prop where
  | same (i : Instruction) : SameCode i i
  | pool (index : UInt16) {a b : Constant} (width : a.isWide = b.isWide) :
    SameCode (pushPool index a) (pushPool index b)

theorem SameCode.symm {i j : Instruction} (h : SameCode i j) : SameCode j i := by
  cases h with
  | same => exact .same i
  | pool index width => exact .pool index width.symm

theorem SameCode.trans {i j k : Instruction} (h : SameCode i j) (h' : SameCode j k) :
    SameCode i k := by
  cases h with
  | same => exact h'
  | pool index width =>
    cases h' with
    | same => exact .pool index width
    | pool _ width' => exact .pool index (width.trans width')

theorem SameCode.bytes_eq {i j : Instruction} (h : SameCode i j) : i.bytes = j.bytes := by
  cases h with
  | same => rfl
  | pool index width => rw [bytes, bytes, width]

theorem sameCode_withoutConstant (i : Instruction) : SameCode i i.withoutConstant := by
  cases i with
  | pushPool index constant =>
    apply SameCode.pool
    by_cases hwide : constant.isWide
    · rw [if_pos hwide, hwide]
      rfl
    · rw [if_neg hwide, (Bool.not_eq_true _).mp hwide]
      rfl
  | _ => exact .same _

theorem SameCode.of_withoutConstant_eq {i j : Instruction}
    (h : i.withoutConstant = j.withoutConstant) : SameCode i j := by
  have hj := sameCode_withoutConstant j
  rw [← h] at hj
  exact (sameCode_withoutConstant i).trans hj.symm

theorem flatMap_bytes_eq_of_sameCode {is js : List Instruction} (h : List.Forall₂ SameCode is js) :
    is.flatMap bytes = js.flatMap bytes := by
  induction h with
  | nil => rfl
  | cons h _ ih => rw [List.flatMap_cons, List.flatMap_cons, h.bytes_eq, ih]

/-- Two pieces of code have the same bytes exactly if they are the same, one instruction after the
other and but for the constants of the pool, and the reader gives such code back. -/
theorem flatMap_bytes_eq_iff (is js : List Instruction) :
    (is.flatMap bytes = js.flatMap bytes ↔ List.Forall₂ SameCode is js) ∧
      ∃ ks, readAll (is.flatMap bytes) = some ks ∧ List.Forall₂ SameCode is ks := by
  refine ⟨⟨fun h => ?_, flatMap_bytes_eq_of_sameCode⟩, _, readAll_flatMap_bytes is, ?_⟩
  · have hread := readAll_flatMap_bytes is
    rw [h, readAll_flatMap_bytes, Option.some_inj, eq_comm, ← List.forall₂_eq_eq_eq,
      List.forall₂_map_left_iff, List.forall₂_map_right_iff] at hread
    exact hread.imp fun _ _ => SameCode.of_withoutConstant_eq
  · rw [List.forall₂_map_right_iff, List.forall₂_same]
    intro i _
    exact sameCode_withoutConstant i

end Instruction
end JvmWeave
