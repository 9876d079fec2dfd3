import JvmWeave.Instruction.Basic

/-!
# Values that flow into and out of code

A value has a type and a place where it is held, and it may have a constant that is known of it.

Places on the stack are counted from below, starting with the lowest value that the code sees.  A
value of two slots counts once there, while in the local slots it takes two numbers.  Places in
fields and elsewhere have no instructions that reach them without more knowledge, so there are loads
and stores for local slots only.

The constant is absent if nobody looked, and unknown if somebody did and there is no constant to be
known.  It does not take part in what an insertion checks; an edit may look at it to decide what to
insert.
-/

set_option autoImplicit false

namespace JvmWeave

inductive LocationKind where
  | stack
  | localSlot
  | field
  | other
  deriving DecidableEq, Repr

def LocationKind.name : LocationKind → String
  | stack => "Stack"
  | localSlot => "Local"
  | field => "Field"
  | other => "Other"

/-- Where a value is held. -/
inductive Location where
  /-- On the operand stack, counted from the lowest value that the code sees. -/
  | stack (index : UInt16)
  /-- In a local slot, or in two from there on. -/
  | localSlot (slot : UInt16)
  /-- In a field of a class. -/
  | field (owner : JavaType) (name : String)
  /-- Anywhere else. -/
  | other (name : String)
  deriving DecidableEq, Repr

namespace Location

def kind : Location → LocationKind
  | stack _ => .stack
  | localSlot _ => .localSlot
  | field _ _ => .field
  | other _ => .other

/-- Whether the place is on the operand stack. -/
def isStack (l : Location) : Bool :=
  l.kind = .stack

/-- The place as messages show it. -/
def text : Location → String
  | stack index => "stack[" ++ toString index.toNat ++ "]"
  | localSlot slot => "local[" ++ toString slot.toNat ++ "]"
  | field owner name => owner.javaName ++ "." ++ name
  | other name => name

end Location

/-- A value that flows into or out of code. -/
structure FlowValue where
  type : JavaType
  location : Location
  /-- What is known of the value, if it was looked at. -/
  constant : Option StaticValue := none
  deriving DecidableEq, Repr

namespace FlowValue

def pushedBy (type : JavaType) (index : UInt16) (i : Instruction) : FlowValue :=
  ⟨type, .stack index, some i.staticValue⟩

def movedTo (v : FlowValue) (location : Location) : FlowValue :=
  { v with location := location }

/-- The value as messages show it. -/
def text (v : FlowValue) : String :=
  v.type.javaName ++ " @ " ++ v.location.text

/-- Whether two values are equal, floating-point values being compared as numbers. -/
def agrees (v w : FlowValue) : Bool :=
  v.type = w.type && v.location = w.location &&
    match v.constant, w.constant with
    | some a, some b => a.agrees b
    | none, none => true
    | _, _ => false

/-- The load of the value from its local slot.  Values elsewhere have none. -/
def load? (v : FlowValue) : Except UnstorableType (Option Instruction) :=
  (StorageClass.ofType v.type).map fun family =>
    match v.location with
    | .localSlot slot => some (.load family slot)
    | _ => none

/-- The store of the top of the stack into the local slot of the value. -/
def store? (v : FlowValue) : Except UnstorableType (Option Instruction) :=
  (StorageClass.ofType v.type).map fun family =>
    match v.location with
    | .localSlot slot => some (.store family slot)
    | _ => none

end FlowValue

end JvmWeave
