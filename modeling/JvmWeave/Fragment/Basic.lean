import JvmWeave.Fragment.Value

/-!
# Fragments

A fragment is a piece of code with the values that flow into and out of it.  It is a leaf, which
does one thing, or a body, which runs other fragments one after another.

The flow of a fragment is declared and not computed from what is inside of it.  A body says which
values it takes and gives, whatever its parts say, and it is up to the one who builds it that the
two fit.  The constructors below build the leaves with the flow that their action has: a field
store, for instance, has the stored value as its last input and no output.

What a leaf does is its `Action`, apart from the flow, so that everything that depends on the action
alone is a function of it.  Only the outcome and the comparison have to go into the parts of a body.
They are pairs of mutually recursive functions, one for a fragment and one for a list of them, as
are all functions on fragments in the other modules.

`exit` and `yield` belong together.  The first one takes its inputs out of the method.  The second
one hands them to the code around the fragment, and control goes on there.  An insertion can turn
the one into the other.

Fragments with floating-point constants have two equalities like the constants, and `agrees` is the
one that compares them as numbers.
-/

set_option autoImplicit false

namespace JvmWeave

/-- What a fragment without parts does. -/
inductive Action where
  /-- Calls a method of a class. -/
  | call (owner : JavaType) (name : String)
  | fieldLoad (owner : JavaType) (name : String)
  | fieldStore (owner : JavaType) (name : String)
  /-- Leaves the method with the inputs as its result. -/
  | exit
  /-- Creates an instance of a class. -/
  | create (type : JavaType)
  /-- Runs instructions, which leave in a known way. -/
  | run (instructions : List Instruction) (outcome : Outcome)
  /-- Hands the inputs on to the code around it, where it once left the method. -/
  | yield
  deriving DecidableEq, Repr

/-- The values that flow into and out of a fragment. -/
structure Flow where
  inputs : List FlowValue
  outputs : List FlowValue
  deriving DecidableEq, Repr

inductive Fragment where
  | leaf (action : Action) (flow : Flow)
  | body (children : List Fragment) (flow : Flow)

/-- The kinds of fragments that can be asked for. -/
inductive FragmentKind where
  | any
  | call
  | fieldLoad
  | fieldStore
  | exit
  | create
  | run
  | body
  | yield
  deriving DecidableEq, Repr

namespace Action

/-- The kind of fragments with this action. -/
def kind : Action → FragmentKind
  | call _ _ => .call
  | fieldLoad _ _ => .fieldLoad
  | fieldStore _ _ => .fieldStore
  | exit => .exit
  | create _ => .create
  | run _ _ => .run
  | yield => .yield

/-- How control leaves the action. -/
def outcome : Action → Outcome
  | call _ _ | fieldLoad _ _ | fieldStore _ _ | create _ => .mayThrow
  | exit => .returned
  | run _ outcome => outcome
  | yield => .onward

/-- The name of the method or field. -/
def name? : Action → Option String
  | call _ name | fieldLoad _ name | fieldStore _ name => some name
  | _ => none

/-- The class of the method or field, or of the instance. -/
def owner? : Action → Option JavaType
  | call owner _ | fieldLoad owner _ | fieldStore owner _ | create owner => some owner
  | _ => none

/-- The action as messages show it. -/
def text : Action → String
  | call owner name => "call " ++ owner.javaName ++ "." ++ name
  | fieldLoad owner name => "load " ++ owner.javaName ++ "." ++ name
  | fieldStore owner name => "store " ++ owner.javaName ++ "." ++ name
  | exit => "return"
  | create type => "new " ++ type.javaName
  | run instructions _ => "code [" ++ String.intercalate ", " (instructions.map (·.text)) ++ "]"
  | yield => "yield"

def instructionsAgree : List Instruction → List Instruction → Bool
  | [], [] => true
  | i :: is, j :: js => i.agrees j && instructionsAgree is js
  | _, _ => false

/-- Whether two actions are equal, floating-point values being compared as numbers. -/
def agrees : Action → Action → Bool
  | run is a, run js b => instructionsAgree is js && a = b
  | a, b => a = b

end Action

def flowValuesAgree : List FlowValue → List FlowValue → Bool
  | [], [] => true
  | v :: vs, w :: ws => v.agrees w && flowValuesAgree vs ws
  | _, _ => false

/-- Whether the same values flow, floating-point values being compared as numbers. -/
def Flow.agrees (a b : Flow) : Bool :=
  flowValuesAgree a.inputs b.inputs && flowValuesAgree a.outputs b.outputs

namespace Fragment

/-! ## Construction -/

def call (owner : JavaType) (name : String) (inputs outputs : List FlowValue) : Fragment :=
  leaf (.call owner name) ⟨inputs, outputs⟩

def fieldLoad (owner : JavaType) (name : String) (receiver : Option FlowValue)
    (value : FlowValue) : Fragment :=
  leaf (.fieldLoad owner name) ⟨receiver.toList, [value]⟩

def fieldStore (owner : JavaType) (name : String) (receiver : Option FlowValue)
    (value : FlowValue) : Fragment :=
  leaf (.fieldStore owner name) ⟨receiver.toList ++ [value], []⟩

def returning (value : Option FlowValue) : Fragment :=
  leaf .exit ⟨value.toList, []⟩

def create (type : JavaType) (inputs : List FlowValue) (instanceValue : FlowValue) : Fragment :=
  leaf (.create type) ⟨inputs, [instanceValue]⟩

/-- Instructions without jumps, which leave as their sequence does. -/
def run (instructions : List Instruction) (inputs outputs : List FlowValue) : Fragment :=
  leaf (.run instructions (.sequence (instructions.map Instruction.outcome))) ⟨inputs, outputs⟩

/-! ## Parts -/

/-- The values that flow into and out of the fragment. -/
def flow : Fragment → Flow
  | leaf _ flow | body _ flow => flow

def inputs (f : Fragment) : List FlowValue := f.flow.inputs

def outputs (f : Fragment) : List FlowValue := f.flow.outputs

def children : Fragment → List Fragment
  | leaf _ _ => []
  | body children _ => children

def action? : Fragment → Option Action
  | leaf action _ => some action
  | body _ _ => none

def withOutputs (outputs : List FlowValue) : Fragment → Fragment
  | leaf action flow => leaf action { flow with outputs := outputs }
  | body children flow => body children { flow with outputs := outputs }

/-- The kind of the fragment. -/
def kind : Fragment → FragmentKind
  | leaf action _ => action.kind
  | body _ _ => .body

/-- Whether the fragment is of a kind that is asked for. -/
def isKind (kind : FragmentKind) (f : Fragment) : Bool :=
  kind = .any || kind = f.kind

/-- The name of the method or field. -/
def name? (f : Fragment) : Option String :=
  f.action?.bind Action.name?

/-- The class of the method or field, or of the instance. -/
def owner? (f : Fragment) : Option JavaType :=
  f.action?.bind Action.owner?

/-- The type that is consumed, if there is one input, and in any case the type that is stored. -/
def inputType? (f : Fragment) : Option JavaType :=
  if f.kind = .fieldStore then f.inputs.getLast?.map (·.type)
  else
    match f.inputs with
    | [v] => some v.type
    | _ => none

/-- The type that is produced, if there is one output. -/
def outputType? (f : Fragment) : Option JavaType :=
  match f.outputs with
  | [v] => some v.type
  | _ => none

/-- The fragment as messages show it. -/
def text (f : Fragment) : String :=
  (match f with
    | leaf action _ => action.text
    | body children _ => "body of " ++ toString children.length ++ " fragments") ++
    " (" ++ toString f.inputs.length ++ " in, " ++ toString f.outputs.length ++ " out)"

mutual

/-- How control leaves the fragment.  A body does what its parts do one after another. -/
def outcome : Fragment → Outcome
  | leaf action _ => action.outcome
  | body children _ => .sequence (outcomes children)

def outcomes : List Fragment → List Outcome
  | [] => []
  | f :: fs => f.outcome :: outcomes fs

end

mutual

/-- Whether two fragments are equal, floating-point values being compared as numbers. -/
def agrees : Fragment → Fragment → Bool
  | leaf a f, leaf b g => a.agrees b && f.agrees g
  | body as f, body bs g => allAgree as bs && f.agrees g
  | _, _ => false

def allAgree : List Fragment → List Fragment → Bool
  | [], [] => true
  | a :: as, b :: bs => a.agrees b && allAgree as bs
  | _, _ => false

end

end Fragment

end JvmWeave
