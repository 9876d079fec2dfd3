import JvmWeave.Fragment.Basic

/-!
# Turning returns into yields

Values that would leave the method are handed to the code around the fragment instead.  Each return
in the fragment becomes a yield with the same inputs, and with the same values as outputs.

Only returns that are fragments are turned.  A return among the instructions of a `run` is part of
code that is taken as it comes, and stays.

A fragment that gets its values from returns usually declares no outputs.  It gets those of the
first yield in source order.  What the other yields hand over is not compared with the first one,
and a fragment that declares outputs keeps them.
-/

set_option autoImplicit false

namespace JvmWeave.Fragment

mutual

/-- The number of returns in the fragment.  Return instructions do not count. -/
def returnCount : Fragment → Nat
  | leaf .exit _ => 1
  | leaf _ _ => 0
  | body children _ => returnCounts children

def returnCounts : List Fragment → Nat
  | [] => 0
  | f :: fs => f.returnCount + returnCounts fs

end

mutual

def convertReturns : Fragment → Fragment
  | leaf .exit flow => leaf .yield ⟨flow.inputs, flow.inputs⟩
  | leaf action flow => leaf action flow
  | body children flow => body (convertAll children) flow

def convertAll : List Fragment → List Fragment
  | [] => []
  | f :: fs => f.convertReturns :: convertAll fs

end

mutual

def firstYield? : Fragment → Option Fragment
  | leaf .yield flow => some (leaf .yield flow)
  | leaf _ _ => none
  | body children _ => firstYieldIn? children

def firstYieldIn? : List Fragment → Option Fragment
  | [] => none
  | f :: fs =>
    match f.firstYield? with
    | some y => some y
    | none => firstYieldIn? fs

end

/-- The fragment with returns turned into yields.  If there were any and the fragment has no
outputs, the values of the first yield become its outputs. -/
def yieldReturns (f : Fragment) : Fragment :=
  let converted := f.convertReturns
  if 0 < f.returnCount ∧ converted.outputs = [] then
    match converted.firstYield? with
    | some yielded => converted.withOutputs yielded.outputs
    | none => converted
  else converted

end JvmWeave.Fragment
