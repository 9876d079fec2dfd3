import JvmWeave.Annotation.Build

/-!
# Parameters of methods

A parameter has a type, a name if the source is known, and annotations, which are worked out on
demand.

Working out annotations means to resolve names and to evaluate expressions, and most parameters are
never asked.  So a parameter may have a supplier, which is called when the annotations are wanted
for the first time.  Its first success is kept.  A failure is not: the supplier is called again the
next time, and may succeed then.

Suppliers have a state that is not ours to know.  What can be observed of it is which call gives
which result, and this is what an `AnnotationSupplier` is: a function of the number of the call.
`annotations` gives the parameter back together with its result, with one more request counted, so
that what is remembered is in the data.

Two parameters are the same if they have the same name and type.  Annotations do not count, whether
they are known or not.
-/

set_option autoImplicit false

namespace JvmWeave

/-- The result of the `n`-th request for annotations, where the first request has the number 1. -/
abbrev AnnotationSupplier (φ : Type) := Nat → Except (AnnotationError φ) (List Annotation)

/-- A parameter of a method, whose supplier has further errors of type `φ`. -/
structure Parameter (φ : Type) where
  name : Option String
  type : JavaType
  supplier : Option (AnnotationSupplier φ) := none
  /-- How many times the supplier was asked. -/
  requests : Nat := 0
  /-- The annotations, once they are known. -/
  known : Option (List Annotation) := none

variable {φ : Type}

namespace Parameter

/-- The annotations, and the parameter that remembers them. -/
def annotations (p : Parameter φ) : Except (AnnotationError φ) (List Annotation) × Parameter φ :=
  match p.known with
  | some list => (.ok list, p)
  | none =>
    match p.supplier with
    | none => (.ok [], { p with known := some [] })
    | some supply =>
      let asked := { p with requests := p.requests + 1 }
      match supply asked.requests with
      | .ok list => (.ok list, { asked with known := some list })
      | .error e => (.error e, asked)

/-- Whether two parameters have the same name and type.  Annotations do not count. -/
def same (p q : Parameter φ) : Bool :=
  p.name = q.name && p.type = q.type

def diagnostic (p : Parameter φ) : String :=
  Text.Diagnostic.record "Parameter"
    [("name", Text.Diagnostic.option (p.name.map Text.quoted)),
      ("parameter_type", p.type.diagnostic),
      ("annotations", Text.Diagnostic.option
        (p.known.map fun list => Text.Diagnostic.list (list.map Annotation.diagnostic)))]

end Parameter

/-- Whether two lists of parameters have the same names and types one by one. -/
def sameParameters : List (Parameter φ) → List (Parameter φ) → Bool
  | [], [] => true
  | p :: ps, q :: qs => p.same q && sameParameters ps qs
  | _, _ => false

end JvmWeave
