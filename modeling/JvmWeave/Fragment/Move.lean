import JvmWeave.Fragment.Basic

/-!
# Moving values between places, all at the same time

The values of one list are moved to the places of another list, pair by pair.  Values on the stack
are its top in the order of the list.  A value in a field or in an unknown place can only stay where
it is.

Values that go from slot to slot travel over the stack: all are loaded before any is stored, so that
swaps and cycles need no spare slot.  Values that go from the stack to slots are stored first,
unless that would overwrite a slot which still has to be read; then they are stored last, which is
only possible if no value is loaded to stay on the stack.

A move is planned from the last pair to the first, since that is the order in which values come off
the stack.  `add` puts one move into the plan and refuses it if a value that stays lies above it.
What concerns several moves is looked at when the plan is complete: two values may not end up in one
slot, a load to the stack may not come under a value that is there already, and stores that hit a
slot which is read later have to come last.  Each of the three is a pass over the pairs or over the
plan, and names the first pair that is in the way.

Slots are compared as ranges, as a long value takes two of them.  The upper end is cut off at the
largest slot number, so a value in the very last slot has no range at all.
-/

set_option autoImplicit false

namespace JvmWeave

/-- Why values cannot be moved. -/
inductive MoveError where
  /-- A value of this type is not held in slots. -/
  | unstorable (cause : UnstorableType)
  /-- No instructions move the value at this index. -/
  | unbindable (index : Nat)
  deriving DecidableEq, Repr

/-- The local slots from `first` up to but not including `last`. -/
structure SlotRange where
  first : Nat
  last : Nat
  deriving DecidableEq, Repr

namespace SlotRange

def overlaps (a b : SlotRange) : Bool :=
  a.first < b.last && b.first < a.last

/-- The slots of a value that is held from a slot on.  The numbers of slots end at 65535. -/
def ofValue (v : FlowValue) (slot : UInt16) : Except UnstorableType SlotRange :=
  (StorageClass.ofType v.type).map fun family =>
    ⟨slot.toNat, min (slot.toNat + family.width) 65535⟩

end SlotRange

/-- The moves of a list of values, grouped by where they start and end.  Slots are kept with the
index of their value.  The lists run from the last value to the first, but for `slotLoads`. -/
structure MovePlan where
  /-- Stores of values from the stack. -/
  stores : List Instruction := []
  /-- Loads of values that go from slot to slot. -/
  slotLoads : List Instruction := []
  /-- Stores of values that go from slot to slot. -/
  slotStores : List Instruction := []
  /-- Slots that are read. -/
  read : List (Nat × SlotRange) := []
  /-- Slots that hold a value at the end. -/
  written : List (Nat × SlotRange) := []
  /-- Slots that are stored into from the stack. -/
  stored : List (Nat × SlotRange) := []
  /-- Whether a value stays on the stack, so that what lies beneath it cannot be popped. -/
  keptOnStack : Bool := false
  deriving DecidableEq, Repr

namespace MovePlan

def storable {α : Type} : Except UnstorableType α → Except MoveError α
  | .ok a => .ok a
  | .error cause => .error (.unstorable cause)

/-- The plan with one more move, in front of all moves that it has. -/
def add (plan : MovePlan) (index : Nat) (source target : FlowValue) :
    Except MoveError MovePlan := do
  match source.location, target.location with
  | .stack _, .stack _ => return { plan with keptOnStack := true }
  | .stack _, .localSlot slot =>
    if plan.keptOnStack then throw (.unbindable index)
    let store ← storable (Instruction.storeOf target.type slot)
    let slots ← storable (SlotRange.ofValue target slot)
    return { plan with
      stores := plan.stores ++ [store]
      stored := plan.stored ++ [(index, slots)]
      written := plan.written ++ [(index, slots)] }
  | .localSlot fromSlot, .localSlot toSlot =>
    let slots ← storable (SlotRange.ofValue target toSlot)
    let plan := { plan with written := plan.written ++ [(index, slots)] }
    if fromSlot = toSlot then return plan
    let sourceSlots ← storable (SlotRange.ofValue source fromSlot)
    let load ← storable (Instruction.loadOf source.type fromSlot)
    let store ← storable (Instruction.storeOf target.type toSlot)
    return { plan with
      read := plan.read ++ [(index, sourceSlots)]
      slotLoads := load :: plan.slotLoads
      slotStores := plan.slotStores ++ [store] }
  | .localSlot slot, .stack _ =>
    let slots ← storable (SlotRange.ofValue source slot)
    return { plan with read := plan.read ++ [(index, slots)] }
  | here, there =>
    if here = there then return plan
    throw (.unbindable index)

/-- The plan of all moves of a list, the first of which has the given index. -/
def ofPairs (index : Nat) : List (FlowValue × FlowValue) → Except MoveError MovePlan
  | [] => .ok {}
  | (source, target) :: rest =>
    match ofPairs (index + 1) rest with
    | .ok plan => plan.add index source target
    | .error e => .error e

/-- The index of the first range that overlaps a later one. -/
def collision? : List (Nat × SlotRange) → Option Nat
  | [] => none
  | (index, slots) :: rest =>
    if rest.any fun other => slots.overlaps other.2 then some index else collision? rest

/-- The loads of values that go from slots to the stack, where they lie above all values that are
there already.  `loaded` says whether there was such a load before. -/
def stackLoads (loaded : Bool) (index : Nat) :
    List (FlowValue × FlowValue) → Except MoveError (List Instruction)
  | [] => .ok []
  | (source, target) :: rest => do
    match source.location, target.location with
    | .localSlot slot, .stack _ =>
      let load ← storable (Instruction.loadOf source.type slot)
      return load :: (← stackLoads true (index + 1) rest)
    | .stack _, .stack _ =>
      if loaded then throw (.unbindable index)
      stackLoads loaded (index + 1) rest
    | _, _ => stackLoads loaded (index + 1) rest

/-- The index of the first value whose store from the stack overwrites a slot that is read. -/
def clobbering? (plan : MovePlan) : Option Nat :=
  (plan.stored.find? fun s => plan.read.any fun r => s.2.overlaps r.2).map Prod.fst

/-- The instructions of the plan in order. -/
def instructions (plan : MovePlan) (loads : List Instruction) :
    Except MoveError (List Instruction) :=
  match plan.clobbering? with
  | none => .ok (plan.stores ++ loads ++ plan.slotLoads ++ plan.slotStores)
  | some index =>
    if loads = [] then .ok (plan.slotLoads ++ plan.slotStores ++ plan.stores)
    else .error (.unbindable index)

end MovePlan

/-- The instructions that move the values to the places of the targets. -/
def moveInstructions (source target : List FlowValue) : Except MoveError (List Instruction) := do
  let pairs := source.zip target
  let plan ← MovePlan.ofPairs 0 pairs
  if let some index := MovePlan.collision? plan.written then throw (.unbindable index)
  let loads ← MovePlan.stackLoads false 0 pairs
  plan.instructions loads

/-- The code that moves the values, if any has to be moved. -/
def moveValues (source target : List FlowValue) : Except MoveError (Option Fragment) := do
  let instructions ← moveInstructions source target
  if instructions = [] then return none
  return some (Fragment.run instructions source target)

end JvmWeave
