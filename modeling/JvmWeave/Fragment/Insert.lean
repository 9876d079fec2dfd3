import JvmWeave.Fragment.Move
import JvmWeave.Fragment.Returns
import JvmWeave.JavaType.Assignable

/-!
# Inserting a fragment before, after or in place of another one

An insertion gives the fragment that takes the place of the target, or says why it is refused.  It
is a function and changes nothing, so there is nothing to undo when it is refused.

Before and after a target there is nothing that could feed inputs, so a fragment with inputs is
refused there.  What it leaves on the stack is in the way of the code around it and is dropped.
Before a target the caller may choose to keep it; then it is put in front of the outputs of the
target.

In place of a target, the replacement has to take what the target takes and give what it gives, and
may not make unreachable what could be reached.  Inputs are assigned from the target to the
replacement and outputs the other way round, hence the order of the two lists in `mismatch?`.  The
conflicts are looked for in a fixed order, counts before types and types before reachability, and
the first one is reported.  Where the two hold values in different places, `moveValues` says how to
get from one to the other, and the code for that is put around the replacement.  The whole then has
the flow of the target.

What returns of the inserted fragment mean depends on where it goes, and so does the default.
Before or after a target they leave the method.  In place of a target they produce the outputs of
the replacement.  There, returns are turned before anything is checked, so that it is the fragment
as it is inserted that has to fit.

A target that is a body takes the new fragments among its parts.  A leaf is first put into a body of
its own.
-/

set_option autoImplicit false

namespace JvmWeave

inductive Position where
  | before
  | overwrite
  | after
  deriving DecidableEq, Repr

def Position.name : Position → String
  | before => "Before"
  | overwrite => "Overwrite"
  | after => "After"

inductive Conflict where
  /-- The inserted fragment has inputs, and nothing can feed them. -/
  | unexpectedInputs (count : Nat)
  /-- Nothing after the target would be reached. -/
  | unreachable
  | inputArity (expected found : Nat)
  | outputArity (expected found : Nat)
  /-- The target's input cannot be passed to the replacement. -/
  | inputType (index : Nat) (expected found : JavaType)
  /-- The replacement's output cannot be used as the target's. -/
  | outputType (index : Nat) (expected found : JavaType)
  /-- The replacement never goes on, but the target can. -/
  | strandsFallThrough
  /-- No instructions move a value to where it is expected. -/
  | unbindableValue (index : Nat)
  deriving DecidableEq, Repr

def Conflict.name : Conflict → String
  | unexpectedInputs _ => "UnexpectedInputs"
  | unreachable => "Unreachable"
  | inputArity _ _ => "InputArity"
  | outputArity _ _ => "OutputArity"
  | inputType _ _ _ => "InputType"
  | outputType _ _ _ => "OutputType"
  | strandsFallThrough => "StrandsFallThrough"
  | unbindableValue _ => "UnbindableValue"

def Conflict.message : Conflict → String
  | unexpectedInputs count =>
    "inserted fragment expects " ++ toString count ++ " inputs, but none are available"
  | unreachable => "target never falls through"
  | inputArity expected found =>
    "expected " ++ toString expected ++ " inputs but found " ++ toString found
  | outputArity expected found =>
    "expected " ++ toString expected ++ " outputs but found " ++ toString found
  | inputType index expected found =>
    "input " ++ toString index ++ " of type " ++ found.javaName ++ " can't be passed as " ++
      expected.javaName
  | outputType index expected found =>
    "output " ++ toString index ++ " of type " ++ found.javaName ++ " can't be used as " ++
      expected.javaName
  | strandsFallThrough => "replacement never falls through, stranding the code after it"
  | unbindableValue index =>
    "value " ++ toString index ++ " can't be moved between its locations"

/-- Why a fragment was not inserted. -/
inductive InsertError where
  | conflict (target inserted : Fragment) (position : Position) (reason : Conflict)
  /-- A value that has to be moved or dropped is not held in slots. -/
  | unstorable (cause : UnstorableType)

def InsertError.message : InsertError → String
  | conflict target inserted position reason =>
    "can't insert '" ++ inserted.text ++ "' into '" ++ target.text ++ "' at position " ++
      position.name ++ ": " ++ reason.message
  | unstorable cause => cause.message

/-- Choices for an insertion. -/
structure InsertOptions where
  /-- In place of a target, returns of the replacement produce its outputs. -/
  returnsToOutputs : Bool := true
  /-- Before or after a target, returns of the inserted fragment leave the method. -/
  returnsLeaveMethod : Bool := true
  /-- Before a target, values that the inserted fragment leaves on the stack are dropped. -/
  discardOutputs : Bool := true
  deriving DecidableEq, Repr

namespace Fragment

/-- The target between other fragments.  They become parts of a body; a leaf is put into a body of
its own. -/
def wrap (target : Fragment) (before after : List Fragment) : Fragment :=
  match target with
  | body children flow => body (before ++ children ++ after) flow
  | leaf action flow => body (before ++ [leaf action flow] ++ after) flow

/-- The instructions that drop values from the top of the stack, the last value first. -/
def popAll : List FlowValue → Except UnstorableType (List Instruction)
  | [] => .ok []
  | v :: vs =>
    match popAll vs with
    | .error e => .error e
    | .ok pops => (Instruction.popOf v.type).map fun i => pops ++ [i]

/-- The code that drops what the fragment leaves on the stack, if it leaves anything there. -/
def discard? (f : Fragment) : Except UnstorableType (Option Fragment) :=
  let onStack := f.outputs.filter fun v => v.location.isStack
  if onStack = [] then .ok none
  else (popAll onStack).map fun pops => some (run pops onStack [])

/-- The fragment as it is inserted before or after a target. -/
def prepared (options : InsertOptions) (f : Fragment) : Fragment :=
  if options.returnsLeaveMethod then f else f.yieldReturns

def insertBefore (target inserted : Fragment) (options : InsertOptions) :
    Except InsertError Fragment :=
  if inserted.inputs ≠ [] then
    .error (.conflict target inserted .before (.unexpectedInputs inserted.inputs.length))
  else
    let inserted := inserted.prepared options
    if options.discardOutputs then
      match inserted.discard? with
      | .error cause => .error (.unstorable cause)
      | .ok discard => .ok (target.wrap (inserted :: discard.toList) [])
    else .ok ((target.wrap [inserted] []).withOutputs (inserted.outputs ++ target.outputs))

def insertAfter (target inserted : Fragment) (options : InsertOptions) :
    Except InsertError Fragment :=
  if target.outcome.fallsThrough = false then
    .error (.conflict target inserted .after .unreachable)
  else if inserted.inputs ≠ [] then
    .error (.conflict target inserted .after (.unexpectedInputs inserted.inputs.length))
  else
    let inserted := inserted.prepared options
    match inserted.discard? with
    | .error cause => .error (.unstorable cause)
    | .ok discard => .ok (target.wrap [] (inserted :: discard.toList))

/-- The first index at which a value cannot be used as another one, and their types. -/
def mismatch? (index : Nat) : List FlowValue → List FlowValue → Option (Nat × JavaType × JavaType)
  | given :: givens, wanted :: wanteds =>
    if given.type.isAssignable wanted.type then mismatch? (index + 1) givens wanteds
    else some (index, given.type, wanted.type)
  | _, _ => none

/-- Why a fragment cannot replace a target, if its values or its outcome do not fit. -/
def conflict? (target replacement : Fragment) : Option Conflict :=
  if target.inputs.length ≠ replacement.inputs.length then
    some (.inputArity target.inputs.length replacement.inputs.length)
  else if target.outputs.length ≠ replacement.outputs.length then
    some (.outputArity target.outputs.length replacement.outputs.length)
  else
    match mismatch? 0 target.inputs replacement.inputs with
    | some (index, found, expected) => some (.inputType index expected found)
    | none =>
      match mismatch? 0 replacement.outputs target.outputs with
      | some (index, found, expected) => some (.outputType index expected found)
      | none =>
        if target.outcome.fallsThrough ∧ replacement.outcome.fallsThrough = false then
          some .strandsFallThrough
        else none

def ofMoveError (target replacement : Fragment) : MoveError → InsertError
  | .unstorable cause => .unstorable cause
  | .unbindable index => .conflict target replacement .overwrite (.unbindableValue index)

/-- A fragment in place of the target.  Where the two hold values in different places, code that
moves them is put around the replacement, and the whole has the values of the target. -/
def overwrite (target replacement : Fragment) (options : InsertOptions) :
    Except InsertError Fragment :=
  let replacement := if options.returnsToOutputs then replacement.yieldReturns else replacement
  match conflict? target replacement with
  | some reason => .error (.conflict target replacement .overwrite reason)
  | none =>
    match moveValues target.inputs replacement.inputs with
    | .error e => .error (ofMoveError target replacement e)
    | .ok bindInputs =>
      match moveValues replacement.outputs target.outputs with
      | .error e => .error (ofMoveError target replacement e)
      | .ok bindOutputs =>
        match bindInputs, bindOutputs with
        | none, none => .ok replacement
        | _, _ =>
          .ok (body (bindInputs.toList ++ [replacement] ++ bindOutputs.toList) target.flow)

def insert (target inserted : Fragment) (position : Position) (options : InsertOptions) :
    Except InsertError Fragment :=
  match position with
  | .before => target.insertBefore inserted options
  | .overwrite => target.overwrite inserted options
  | .after => target.insertAfter inserted options

end Fragment

end JvmWeave
