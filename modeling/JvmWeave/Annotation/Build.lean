import JvmWeave.Annotation.Value
import JvmWeave.Scope.Resolve

/-!
# Building annotations

Annotations come from class files and from source, and both producers give the same shape.  Members
of class files come with their values.  Members in source are expressions, which an evaluator turns
into values one after another.  No member may be given twice.

The two producers share the check for repeated members and nothing else.  `ofBinary` takes a
descriptor and refuses every type that is no class.  `ofSource` takes a name, and whatever the name
means in its scope is the type of the annotation.  That the first check has no counterpart in the
second is what the comparison of the two in the proofs is about.

Evaluators belong to whoever knows the expressions, and so do the errors they give.  The errors of
this module are therefore a type with a parameter: an evaluator may fail with any of them, since it
may itself resolve names and build annotations, or with a `foreign` one, which is passed on as it
is.  Class files involve no evaluator, and the type of `ofBinary` says that nothing foreign comes
from it.

An expression is evaluated before its member is looked at, so where both are wrong the error of the
evaluation is the one that is seen.
-/

set_option autoImplicit false

namespace JvmWeave

/-- Why an annotation cannot be built.  Evaluators and suppliers come from outside and may fail for
reasons of their own, of type `φ`. -/
inductive AnnotationError (φ : Type) where
  /-- The descriptor of the annotation is no class. -/
  | malformed (cause : Malformed)
  /-- A name in the annotation does not resolve. -/
  | unresolved (cause : ResolveError)
  /-- An expression of this kind is no annotation or no member value. -/
  | unrecognizedForm (kind : String)
  /-- A member is given more than once. -/
  | duplicateMember (type : JavaType) (member : String)
  | foreign (cause : φ)
  deriving DecidableEq, Repr

def AnnotationError.message {φ : Type} (wording : φ → String) : AnnotationError φ → String
  | malformed cause => cause.message
  | unresolved cause => cause.message
  | unrecognizedForm kind => "unknown annotation expression: " ++ kind
  | duplicateMember type member =>
    "member '" ++ member ++ "' of @" ++ type.javaName ++ " is given more than once"
  | foreign cause => wording cause

/-- An annotation in source, with members of type `ε` that are not evaluated. -/
inductive AnnotationExpr (ε : Type) where
  | marker (name : String)
  | single (name : String) (value : ε)
  | normal (name : String) (pairs : List (String × ε))
  /-- Any other expression in place of an annotation, by its kind. -/
  | other (kind : String)

/-- Gives expressions their values in a scope. -/
abbrev Evaluator (ε φ : Type) := ε → Scope → Except (AnnotationError φ) AnnotationValue

namespace Annotation

variable {ε φ : Type}

/-- The member that the only value of an annotation belongs to. -/
def singleMemberName : String := "value"

/-- The annotation with a member that it does not have yet. -/
def addMember (a : Annotation) (name : String) (value : AnnotationValue) :
    Except (AnnotationError φ) Annotation :=
  if (a.get? name).isSome then .error (.duplicateMember a.type name)
  else .ok (a.withMember name value)

def addMembers (a : Annotation) :
    List (String × AnnotationValue) → Except (AnnotationError Empty) Annotation
  | [] => .ok a
  | (name, value) :: rest =>
    match a.addMember name value with
    | .ok b => addMembers b rest
    | .error e => .error e

/-- The annotation of a class file with this type descriptor and these members. -/
def ofBinary (descriptor : String) (pairs : List (String × AnnotationValue)) :
    Except (AnnotationError Empty) Annotation :=
  match JavaType.ofDescriptor descriptor with
  | .error cause => .error (.malformed cause)
  | .ok type =>
    if type.category = .classType then (marker type).addMembers pairs
    else .error (.malformed ⟨.descriptor, descriptor, 0, .annotationOfOther⟩)

/-- The annotation with all members of a list of expressions.  An expression is evaluated before
its member is looked at. -/
def addEvaluated (a : Annotation)
    (evaluate : ε → Except (AnnotationError φ) AnnotationValue) :
    List (String × ε) → Except (AnnotationError φ) Annotation
  | [] => .ok a
  | (name, expr) :: rest =>
    match evaluate expr with
    | .error e => .error e
    | .ok value =>
      match a.addMember name value with
      | .ok b => addEvaluated b evaluate rest
      | .error e => .error e

/-- The empty annotation of the type that a name in source means. -/
def markerNamed (scope : Scope) (name : String) : Except (AnnotationError φ) Annotation :=
  match scope.resolve name with
  | .ok type => .ok (marker type)
  | .error cause => .error (.unresolved cause)

/-- The annotation that an expression in source means. -/
def ofSource (expr : AnnotationExpr ε) (scope : Scope) (evaluator : Evaluator ε φ) :
    Except (AnnotationError φ) Annotation := do
  match expr with
  | .marker name => markerNamed scope name
  | .single name value => do
    let a ← markerNamed scope name
    return a.withMember singleMemberName (← evaluator value scope)
  | .normal name pairs => do
    let a ← markerNamed scope name
    a.addEvaluated (evaluator · scope) pairs
  | .other kind => throw (.unrecognizedForm kind)

end Annotation

end JvmWeave
