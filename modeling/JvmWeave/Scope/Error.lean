import JvmWeave.JavaType.SourceName

/-!
# Errors of resolution

Why a name in source has no meaning in a scope.

An application, a name with arguments, has several places that can fail.  Its error keeps what did
resolve, the type in front of the arguments and the types in them up to the first failure, because
that is what a reader of the message needs to find the place.  The error of the place itself is
inside as the cause, so errors nest as deep as the applications did, and `causes` lists them from
the outside in.

A name that stands alone has no cause: no rule gave it a meaning, and which rules were tried is not
part of the error.  Its wording is that of an application of which nothing resolved.
-/

set_option autoImplicit false

namespace JvmWeave

/-- Why a type expression does not resolve. -/
inductive ResolveError where
  /-- The text is no type expression, or arguments were given to what takes none. -/
  | malformed (cause : Malformed)
  /-- No rule gives the name a meaning. -/
  | unresolvable (name : String)
  /-- A name with arguments does not resolve.  `head` is the type in front of the arguments, if
  that one does; `arguments` are the types mentioned before the first argument that fails. -/
  | failedApplication (text : String) (head : Option JavaType) (arguments : List JavaType)
      (cause : ResolveError)
  /-- An unqualified name could only be a class of the default package, which is not allowed. -/
  | ambiguousDefaultPackage (name : String)
  /-- A type parameter has more than one bound, so that its erasure is not determined. -/
  | severalBounds (name : String) (bounds : List String)
  deriving DecidableEq, Repr

namespace ResolveError

/-- The start of the wording for a name that does not resolve. -/
def unresolvableMessage (name : String) (head : Option JavaType) (arguments : List JavaType) :
    String :=
  "couldn't resolve name '" ++ name ++ "'; found raw type: " ++
    Text.Diagnostic.option (head.map JavaType.diagnostic) ++ "; generic types: " ++
    Text.Diagnostic.list (arguments.map JavaType.diagnostic)

def message : ResolveError → String
  | malformed cause => cause.message
  | unresolvable name => unresolvableMessage name none []
  | failedApplication text head arguments cause =>
    unresolvableMessage text head arguments ++ "; caused by: " ++ cause.message
  | ambiguousDefaultPackage name =>
    "'" ++ name ++ "' has no package and default package resolution is disabled"
  | severalBounds name bounds =>
    "type parameter '" ++ name ++ "' must have at most one bound, found " ++
      Text.Diagnostic.texts bounds

/-- The error that this one was caused by. -/
def cause? : ResolveError → Option ResolveError
  | failedApplication _ _ _ cause => some cause
  | _ => none

/-- All errors that led to this one, the nearest first. -/
def causes : ResolveError → List ResolveError
  | failedApplication _ _ _ cause => cause :: cause.causes
  | _ => []

end ResolveError

end JvmWeave
