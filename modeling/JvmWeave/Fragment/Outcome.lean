/-!
# Outcomes

The ways in which control can leave a piece of code: it goes on with what comes next, an exception
leaves it, or the method returns.  Several ways may be open at the same time.

An outcome is a bound from above.  A call may throw, and nothing says that it will.  The outcome of
a sequence counts whatever any part can do, parts behind a return included: the sequence goes on if
all parts do, and throws or returns if any part does.  The order of the parts does not matter then,
and `onward` is the outcome of no parts at all.
-/

set_option autoImplicit false

namespace JvmWeave

structure Outcome where
  /-- Control can go on with what comes next. -/
  fallsThrough : Bool
  throws : Bool
  returns : Bool
  deriving DecidableEq, Repr

namespace Outcome

def onward : Outcome := ⟨true, false, false⟩

def thrown : Outcome := ⟨false, true, false⟩

def returned : Outcome := ⟨false, false, true⟩

def mayThrow : Outcome := ⟨true, true, false⟩

/-- One piece of code after the other.  Whatever the second can do counts, even if the first never
goes on. -/
def andThen (a b : Outcome) : Outcome :=
  ⟨a.fallsThrough && b.fallsThrough, a.throws || b.throws, a.returns || b.returns⟩

/-- Several pieces of code one after another. -/
def sequence (parts : List Outcome) : Outcome :=
  parts.foldl andThen onward

end Outcome

end JvmWeave
