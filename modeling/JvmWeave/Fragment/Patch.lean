import JvmWeave.Fragment.Insert
import JvmWeave.Fragment.Walk

/-!
# Insertions at many places

A patch is an insertion that is made at every fragment of a kind.  It is a walk whose edit is the
insertion, with no state of its own.  The walk goes from the inside to the outside, so what an
insertion puts in is never a target of the same patch.
-/

set_option autoImplicit false

namespace JvmWeave.Fragment

/-- An insertion as an edit.  A fragment that it is refused for stays as it is. -/
def insertion {σ : Type} (inserted : Fragment) (position : Position) (options : InsertOptions) :
    Edit σ InsertError :=
  fun state target =>
    match target.insert inserted position options with
    | .ok result => ⟨state, result, none⟩
    | .error e => ⟨state, target, some e⟩

def insertEach (target inserted : Fragment) (kind : FragmentKind) (position : Position)
    (options : InsertOptions) : Edited Unit InsertError Fragment :=
  editEach kind (insertion inserted position options) () target

end JvmWeave.Fragment
