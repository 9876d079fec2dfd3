import JvmWeave.ClassPath.SearchPath
import JvmWeave.Text.Blank
import JvmWeave.Text.Diagnostic
import JvmWeave.Text.Utf8

/-!
# Imports

An exact import brings one class into scope, together with the classes nested in it.  A wildcard
brings in all classes of a package.

An import is a name and whether it is a wildcard.  How it is written is not kept, so an import that
was read and one that was put together are the same.  Nothing is checked: blanks around the text are
dropped, and what is between them is taken as it is.

`shorten?` is the other direction, from a qualified name to what is left of it when the import is in
scope.  Here an exact import also covers the classes nested in its class, and the last part of its
own name stays in front of them.  A wildcard leaves whatever stands behind the package, even if that
begins with another package; whoever asks has to check that it begins with a class.
-/

set_option autoImplicit false

namespace JvmWeave

structure Import where
  /-- The class, or the package of a wildcard. -/
  name : String
  wildcard : Bool
  deriving DecidableEq, Repr

namespace Import

/-- The import of one class. -/
def ofClass (name : String) : Import :=
  ⟨name, false⟩

/-- The import of all classes of a package. -/
def ofPackage (name : String) : Import :=
  ⟨name, true⟩

/-- The import of all classes that need no import. -/
def implicit : Import :=
  ofPackage "java.lang"

/-- The import that is written as `text` between the keyword and the semicolon. -/
def ofText (text : String) : Import :=
  let trimmed := Text.trim text.toList
  match Text.stripSuffix? ['.', '*'] trimmed with
  | some package => ofPackage (String.ofList package)
  | none => ofClass (String.ofList trimmed)

def simpleName (i : Import) : List Char :=
  (Text.split '.' i.name.toList).getLast (Text.split_ne_nil _ _)

/-- The name that is left of a qualified name when the import is in scope. -/
def shorten? (i : Import) (qualified : List Char) : Option (List Char) :=
  (Text.stripPrefix? i.name.toList qualified).bind fun rest =>
    if i.wildcard then Text.stripPrefix? ['.'] rest
    else if rest = [] then some i.simpleName
    else (Text.stripPrefix? ['.'] rest).map fun nested => i.simpleName ++ '.' :: nested

def diagnostic (i : Import) : String :=
  Text.Diagnostic.record "Import" [("name", Text.quoted i.name), ("wildcard", toString i.wildcard)]

end Import

end JvmWeave
