import JvmWeave.Scope.Basic
import JvmWeave.JavaType.SourceName

/-!
# Short names of types

How a type is written in a scope, with what its imports make unnecessary left out.

Of all imports that shorten a name the longest wins, and of several that are equally long the last.
Length is counted in bytes.  Wildcards only count if the class path knows the class behind the
package, for otherwise the rest of a longer package name would be taken for one.

That the short name means the type again is not checked here.  It is the first rule that matches
which gives a name its meaning, and that may be another import, a class of the scope's own package
or a type parameter.

The tree of the type is followed as deep as it goes: element types of arrays and types in arguments
are shortened by the same rules.  They are smaller as texts, which is why the recursion ends.
-/

set_option autoImplicit false

namespace JvmWeave

open Text

namespace Scope

/-- The shortened name that an import gives, with the length of what it takes away.  A wildcard only
brings in classes that are known, and no packages. -/
def shortening? (s : Scope) (qualified : List Char) (i : Import) : Option (Nat × List Char) :=
  (i.shorten? qualified).bind fun short =>
    let outer := short.takeWhile (· ≠ '.')
    if i.wildcard ∧ ¬ s.knows (qualify i.name.toList outer) then none
    else some (utf8Length i.name.toList, short)

/-- The last of the longest. -/
def longest? : List (Nat × List Char) → Option (Nat × List Char)
  | [] => none
  | a :: rest =>
    match longest? rest with
    | some b => if a.1 ≤ b.1 then some b else some a
    | none => some a

/-- The name of a class with the longest matching import taken away. -/
def shortClassName (s : Scope) (qualified : List Char) : List Char :=
  let implicit := if s.settings.implicitJavaLang then [Import.implicit] else []
  match longest? ((s.imports ++ implicit).filterMap (s.shortening? qualified)) with
  | some (_, short) => short
  | none => qualified

/-- The type as it is written in the scope. -/
def nameOf (s : Scope) (t : JavaType) : String :=
  match t.primitive? with
  | some p => p.keyword
  | none =>
    match t.variableName? with
    | some name => name
    | none =>
      match t.category with
      | .array =>
        match _he : t.element? with
        | some element => s.nameOf element ++ "[]"
        | none => t.javaName
      | .classType =>
        match t.className? with
        | none => t.javaName
        | some name =>
          let arguments := t.typeArguments.attach.map fun ⟨a, _⟩ =>
            match a with
            | .any => "?"
            | .just u => s.nameOf u
            | .subtypesOf u => "? extends " ++ s.nameOf u
            | .supertypesOf u => "? super " ++ s.nameOf u
          withArgumentList
            (String.ofList (s.shortClassName (replace '$' '.' name.toList))) arguments
      | _ => t.javaName
termination_by t.size
decreasing_by
  · exact JavaType.size_element_lt _he
  all_goals exact JavaType.size_argument_lt ‹_› rfl

end Scope

end JvmWeave
