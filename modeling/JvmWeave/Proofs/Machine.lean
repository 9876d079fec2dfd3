import JvmWeave.Instruction.Basic

/-!
# The machine that instructions run on

An operand stack of whole values, and local slots that hold *parts* of values: a `long` or a
`double` in slots `n` and `n + 1` is its part `0` in the first and its part `1` in the second.  That
is what makes a half-overwritten value unreadable without any bookkeeping: `valueAt?` asks for all
parts, so a store into either slot takes the value away.

`step` is partial.  It has no answer where the instruction is not allowed (an empty stack, a value
of another storage class, a slot beyond the last), and none after a return or a throw, as no
instruction comes next then.  So `runAll is m = some m'` says that the instructions run to their
end, and not only what happens if they do.
-/

set_option autoImplicit false

namespace JvmWeave

/-- An object that a reference points to. -/
inductive ObjectRef where
  | null
  | string (value : String)
  | classLiteral (type : JavaType)
  | object (address : Nat)
  deriving DecidableEq, Repr

/-- A value on the operand stack or in the local slots. -/
inductive MachineValue where
  | int (value : Int32)
  | long (value : Int64)
  | float (value : Binary32)
  | double (value : Binary64)
  | reference (target : ObjectRef)
  deriving DecidableEq, Repr

namespace MachineValue

def family : MachineValue → StorageClass
  | int _ => .int
  | long _ => .long
  | float _ => .float
  | double _ => .double
  | reference _ => .reference

def width (v : MachineValue) : Nat := v.family.width

def ofConstant : Constant → MachineValue
  | .null => reference .null
  | .int n => int n
  | .long n => long n
  | .float x => float x
  | .double x => double x
  | .string s => reference (.string s)
  | .classLiteral t => reference (.classLiteral t)

theorem width_pos (v : MachineValue) : 0 < v.width := by
  cases v <;> simp [width, family, StorageClass.width]

end MachineValue

/-- There are values of every storage class. -/
theorem StorageClass.exists_value (family : StorageClass) : ∃ v : MachineValue, v.family = family := by
  cases family with
  | int => exact ⟨.int 0, rfl⟩
  | long => exact ⟨.long 0, rfl⟩
  | float => exact ⟨.float ⟨0⟩, rfl⟩
  | double => exact ⟨.double ⟨0⟩, rfl⟩
  | reference => exact ⟨.reference .null, rfl⟩

/-- The part of a value that lies in one slot. -/
structure SlotPart where
  value : MachineValue
  offset : Nat
  deriving DecidableEq, Repr

structure MachineState where
  /-- The operand stack, its top first. -/
  stack : List MachineValue
  locals : Nat → Option SlotPart

namespace MachineState

/-- The number of local slots that a method can have. -/
def slotLimit : Nat := 65535

/-- The value lies whole in the slots from `slot` on. -/
def Holds (locals : Nat → Option SlotPart) (slot : Nat) (v : MachineValue) : Prop :=
  ∀ k < v.width, locals (slot + k) = some ⟨v, k⟩

instance (locals : Nat → Option SlotPart) (slot : Nat) (v : MachineValue) :
    Decidable (Holds locals slot v) :=
  inferInstanceAs (Decidable (∀ k < v.width, _))

/-- The value that can be loaded from a slot. -/
def valueAt? (locals : Nat → Option SlotPart) (slot : Nat) : Option MachineValue :=
  match locals slot with
  | some ⟨v, 0⟩ => if Holds locals slot v then some v else none
  | _ => none

/-- The slots after a value is put into those from `slot` on. -/
def write (slot : Nat) (v : MachineValue) (locals : Nat → Option SlotPart) :
    Nat → Option SlotPart :=
  fun n => if slot ≤ n ∧ n < slot + v.width then some ⟨v, n - slot⟩ else locals n

def push (m : MachineState) (v : MachineValue) : MachineState :=
  { m with stack := v :: m.stack }

/-- The state after an instruction, if it can be carried out and another one can come next. -/
def step : Instruction → MachineState → Option MachineState
  | .pushNull, m => some (m.push (.reference .null))
  | .intConst k, m => some (m.push (.int (Int32.ofInt (Instruction.smallInt k))))
  | .longConst k, m => some (m.push (.long (Int64.ofInt k.val)))
  | .floatConst k, m => some (m.push (.float (Instruction.smallFloat k)))
  | .doubleConst k, m => some (m.push (.double (Instruction.smallDouble k)))
  | .pushByte n, m => some (m.push (.int n.toInt32))
  | .pushShort n, m => some (m.push (.int n.toInt32))
  | .pushPool _ constant, m => some (m.push (.ofConstant constant))
  | .load family slot, m =>
    match valueAt? m.locals slot.toNat with
    | some v => if v.family = family then some (m.push v) else none
    | none => none
  | .store family slot, ⟨v :: rest, locals⟩ =>
    if v.family = family ∧ slot.toNat + v.width ≤ slotLimit then
      some ⟨rest, write slot.toNat v locals⟩
    else none
  | .pop, ⟨v :: rest, locals⟩ => if v.width = 1 then some ⟨rest, locals⟩ else none
  | .popWide, ⟨v :: rest, locals⟩ =>
    if v.width = 2 then some ⟨rest, locals⟩
    else
      match rest with
      | w :: rest => if w.width = 1 then some ⟨rest, locals⟩ else none
      | [] => none
  | _, _ => none

/-- The state after all instructions, one after another. -/
def runAll : List Instruction → MachineState → Option MachineState
  | [], m => some m
  | i :: is, m => (step i m).bind (runAll is)

theorem runAll_append (is js : List Instruction) (m : MachineState) :
    runAll (is ++ js) m = (runAll is m).bind (runAll js) := by
  induction is generalizing m with
  | nil => rfl
  | cons i is ih =>
    rw [List.cons_append, runAll, runAll]
    cases step i m with
    | none => rfl
    | some m' => exact ih m'

/-- A run that ends goes on with the instructions behind it. -/
theorem runAll_append_of_eq_some {is js : List Instruction} {m m' : MachineState}
    (h : runAll is m = some m') : runAll (is ++ js) m = runAll js m' := by
  rw [runAll_append, h, Option.bind_some]

/-! ## Slots -/

theorem valueAt?_of_holds {locals : Nat → Option SlotPart} {slot : Nat} {v : MachineValue}
    (h : Holds locals slot v) : valueAt? locals slot = some v := by
  have h0 : locals slot = some ⟨v, 0⟩ := h 0 v.width_pos
  unfold valueAt?
  rw [h0]
  exact if_pos h

theorem holds_write (slot : Nat) (v : MachineValue) (locals : Nat → Option SlotPart) :
    Holds (write slot v locals) slot v := by
  intro k hk
  unfold write
  rw [if_pos ⟨by omega, by omega⟩, Nat.add_sub_cancel_left]

/-- A value and the slot from which on it is, or is to be, held. -/
abbrev Placed := UInt16 × MachineValue

/-- The slots of two values do not meet. -/
def Apart (a b : Placed) : Prop :=
  a.1.toNat + a.2.width ≤ b.1.toNat ∨ b.1.toNat + b.2.width ≤ a.1.toNat

theorem Apart.symm {a b : Placed} (h : Apart a b) : Apart b a :=
  Or.symm h

instance : Std.Symm Apart :=
  ⟨fun _ _ => Apart.symm⟩

theorem Holds.write_apart {locals : Nat → Option SlotPart} {a b : Placed}
    (h : Holds locals a.1.toNat a.2) (hab : Apart b a) :
    Holds (write b.1.toNat b.2 locals) a.1.toNat a.2 := by
  intro k hk
  unfold write
  rw [if_neg, h k hk]
  rcases hab with hab | hab <;> omega

/-- The slots after several values are put into them, the first value first. -/
def writeAll (ws : List Placed) (locals : Nat → Option SlotPart) : Nat → Option SlotPart :=
  ws.foldl (fun l w => write w.1.toNat w.2 l) locals

theorem writeAll_append (ws ws' : List Placed) (locals : Nat → Option SlotPart) :
    writeAll (ws ++ ws') locals = writeAll ws' (writeAll ws locals) :=
  List.foldl_append

/-- A value that is written, or that was there before, is still there after all writes if none of
    the others meets its slots. -/
theorem holds_writeAll {ws : List Placed} {locals : Nat → Option SlotPart} {a : Placed}
    (ha : a ∈ ws ∨ Holds locals a.1.toNat a.2) (hap : ∀ w ∈ ws, w = a ∨ Apart w a) :
    Holds (writeAll ws locals) a.1.toNat a.2 := by
  -- The first write either puts the value there or leaves it, and the rest cannot tell which.
  induction ws generalizing locals with
  | nil => exact ha.resolve_left (by simp)
  | cons w ws ih =>
    refine ih ?_ fun w' hw' => hap w' (List.mem_cons_of_mem _ hw')
    rcases hap w List.mem_cons_self with rfl | hwa
    · exact .inr (holds_write _ _ _)
    · rcases ha with hm | hh
      · rcases List.mem_cons.mp hm with rfl | hm
        · exact .inr (holds_write _ _ _)
        · exact .inl hm
      · exact .inr (hh.write_apart hwa)

/-- A slot that no write covers keeps its part. -/
theorem writeAll_of_uncovered {ws : List Placed} {locals : Nat → Option SlotPart} {n : Nat}
    (h : ∀ w ∈ ws, ¬(w.1.toNat ≤ n ∧ n < w.1.toNat + w.2.width)) :
    writeAll ws locals n = locals n := by
  induction ws generalizing locals with
  | nil => rfl
  | cons w ws ih =>
    have hs : writeAll ws (write w.1.toNat w.2 locals) n = write w.1.toNat w.2 locals n :=
      ih fun w' hw' => h w' (List.mem_cons_of_mem _ hw')
    show writeAll ws (write w.1.toNat w.2 locals) n = locals n
    rw [hs, write, if_neg (h w List.mem_cons_self)]

/-! ## Runs of loads and of stores -/

def storeInto (w : Placed) : Instruction :=
  .store w.2.family w.1

def loadFrom (w : Placed) : Instruction :=
  .load w.2.family w.1

theorem step_storeInto {w : Placed} {stack : List MachineValue} {locals : Nat → Option SlotPart}
    (hf : w.1.toNat + w.2.width ≤ slotLimit) :
    step (storeInto w) ⟨w.2 :: stack, locals⟩ = some ⟨stack, write w.1.toNat w.2 locals⟩ := by
  unfold storeInto step
  exact if_pos ⟨rfl, hf⟩

theorem step_loadFrom {w : Placed} {stack : List MachineValue} {locals : Nat → Option SlotPart}
    (hh : Holds locals w.1.toNat w.2) :
    step (loadFrom w) ⟨stack, locals⟩ = some ⟨w.2 :: stack, locals⟩ := by
  unfold loadFrom step
  dsimp only
  rw [valueAt?_of_holds hh]
  exact if_pos rfl

/-- Stores take the values off the stack, the first from the top, and write them in that order. -/
theorem runAll_stores {ws : List Placed} {rest : List MachineValue}
    {locals : Nat → Option SlotPart} (hf : ∀ w ∈ ws, w.1.toNat + w.2.width ≤ slotLimit) :
    runAll (ws.map storeInto) ⟨ws.map Prod.snd ++ rest, locals⟩ =
      some ⟨rest, writeAll ws locals⟩ := by
  induction ws generalizing locals with
  | nil => rfl
  | cons w ws ih =>
    rw [List.map_cons, List.map_cons, List.cons_append, runAll,
      step_storeInto (hf w List.mem_cons_self), Option.bind_some]
    exact ih fun w' hw' => hf w' (List.mem_cons_of_mem _ hw')

/-- Loads put the values onto the stack, the last on top, and leave the slots alone. -/
theorem runAll_loads {ws : List Placed} {stack : List MachineValue}
    {locals : Nat → Option SlotPart} (hh : ∀ w ∈ ws, Holds locals w.1.toNat w.2) :
    runAll (ws.map loadFrom) ⟨stack, locals⟩ =
      some ⟨(ws.map Prod.snd).reverse ++ stack, locals⟩ := by
  induction ws generalizing stack with
  | nil => rfl
  | cons w ws ih =>
    rw [List.map_cons, runAll, step_loadFrom (hh w List.mem_cons_self), Option.bind_some,
      ih fun w' hw' => hh w' (List.mem_cons_of_mem _ hw')]
    simp

end MachineState
end JvmWeave
