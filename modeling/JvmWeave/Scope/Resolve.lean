import JvmWeave.Scope.ClassLookup
import JvmWeave.Scope.TypeExpr

/-!
# The type of an expression

What a type expression means in a scope.  A name without arguments is a type parameter or a class,
and the rest follows the structure of the expression.

A type parameter erases to its bound, which is resolved in the same scope, so a bound may lead to
further type parameters and in the end back to where it started.  The names on the way are
remembered in `visiting`, and none is entered twice.  That is why resolution ends: each bound that
is followed leaves fewer parameters to visit, and between two bounds the expression gets smaller.
Bounds are looked up in the whole scope.  A bound of an outer parameter may so meet an inner one of
the same name.

Only the head of a bound is resolved.  Its arguments have no part in the erasure, and are not even
read beyond the angle brackets around them, which have to match.

An application resolves its head and all arguments before it looks at errors.  The order in which
they are reported is then that of the text: the head first, and of the arguments the first one that
fails, with the types in front of it for the message (`untilError`, `applyHead`).
-/

set_option autoImplicit false

namespace JvmWeave

/-- The values before the first error, and that error. -/
def untilError {ε α : Type} : List (Except ε α) → List α × Option ε
  | [] => ([], none)
  | .error e :: _ => ([], some e)
  | .ok a :: rest =>
    let (values, error) := untilError rest
    (a :: values, error)

namespace Scope

/-- How many type parameters are not yet visited. -/
def unvisited (s : Scope) (visiting : List String) : Nat :=
  (s.typeParameters.filter fun p => !visiting.contains p.name).length

/-- Visiting a parameter leaves fewer to visit. -/
theorem unvisited_cons_lt {s : Scope} {visiting : List String} {name : String} {p : TypeParameter}
    (hp : s.parameter? name = some p) (hv : name ∉ visiting) :
    s.unvisited (name :: visiting) < s.unvisited visiting := by
  have hn : p.name = name := by simpa using List.find?_some hp
  have hm : p ∈ s.typeParameters := List.mem_of_find?_eq_some hp
  have sub : (s.typeParameters.filter fun q => !(name :: visiting).contains q.name).Sublist
      (s.typeParameters.filter fun q => !visiting.contains q.name) := by
    have split (q : TypeParameter) : (!(name :: visiting).contains q.name) =
        (!(q.name == name) && !visiting.contains q.name) := by
      rw [List.contains_cons, Bool.not_or]
    simp only [split, ← List.filter_filter]
    exact List.filter_sublist
  refine Nat.lt_of_le_of_ne sub.length_le fun e => ?_
  have he := sub.eq_of_length e
  have hp : p ∈ s.typeParameters.filter fun q => !visiting.contains q.name :=
    List.mem_filter.2 ⟨hm, by simpa [hn] using hv⟩
  rw [← he] at hp
  simpa [hn] using (List.mem_filter.1 hp).2

/-- The type of a name applied to arguments, of which those before the first error are known. -/
def applyHead (text : String) (head : Except ResolveError JavaType)
    (arguments : List TypeArgument × Option ResolveError) : Except ResolveError JavaType :=
  let types := arguments.1.filterMap Argument.type?
  match head, arguments.2 with
  | .ok head, none =>
    match head.withArguments arguments.1 with
    | .ok t => .ok t
    | .error cause => .error (.failedApplication text (some head) types (.malformed cause))
  | .ok head, some cause => .error (.failedApplication text (some head) types cause)
  | .error cause, _ => .error (.failedApplication text none types cause)

/-- A type in an argument is smaller than the expression. -/
theorem sizeOf_lt_applied {text head : String} {arguments : List (Argument TypeExpr)}
    {argument : Argument TypeExpr} {type : TypeExpr} (ha : argument ∈ arguments)
    (ht : argument.type? = some type) :
    sizeOf type < sizeOf (TypeExpr.applied text head arguments) := by
  have h₁ := List.sizeOf_lt_of_mem ha
  have h₂ : sizeOf type < sizeOf argument := by
    cases argument <;> cases ht <;> simp
  simp only [TypeExpr.applied.sizeOf_spec]
  omega

mutual

/-- The type of an expression, where the parameters in `visiting` are being resolved. -/
def evaluate (s : Scope) (visiting : List String) (e : TypeExpr) : Except ResolveError JavaType :=
  match e with
  | .primitive p => .ok (.primitive p)
  | .malformed cause => .error (.malformed cause)
  | .array element =>
    match s.evaluate visiting element with
    | .ok t => .ok (.arrayOf t)
    | .error cause => .error cause
  | .named name => s.evaluateName visiting name
  | .applied text head arguments =>
    let results := arguments.attach.map fun ⟨argument, _⟩ =>
      match _hw : argument with
      | .any => .ok .any
      | .just type => (s.evaluate visiting type).map .just
      | .subtypesOf type => (s.evaluate visiting type).map .subtypesOf
      | .supertypesOf type => (s.evaluate visiting type).map .supertypesOf
    applyHead text (s.evaluateName visiting head) (untilError results)
termination_by (s.unvisited visiting, sizeOf e)
decreasing_by
  · exact Prod.Lex.right _ (by simp only [TypeExpr.array.sizeOf_spec]; omega)
  · exact Prod.Lex.right _ (by simp only [TypeExpr.named.sizeOf_spec]; omega)
  · exact Prod.Lex.right _ (sizeOf_lt_applied ‹_› rfl)
  · exact Prod.Lex.right _ (sizeOf_lt_applied ‹_› rfl)
  · exact Prod.Lex.right _ (sizeOf_lt_applied ‹_› rfl)
  · exact Prod.Lex.right _ (by simp only [TypeExpr.applied.sizeOf_spec]; omega)

def evaluateName (s : Scope) (visiting : List String) (name : String) :
    Except ResolveError JavaType :=
  if name = "" ∨ name.toList.any Text.isBlank then .error (.unresolvable name)
  else
    match _hp : s.parameter? name with
    | none => (s.classOf name.toList).map .ofBinaryName
    | some p =>
      match p.bounds with
      | [] => .ok (.typeVariable name .object)
      | [bound] =>
        if _hv : name ∈ visiting then .error (.unresolvable name)
        else
          match splitGeneric (Text.trim bound.toList) with
          | .error cause => .error (.malformed cause)
          | .ok (head, _) =>
            (s.evaluate (name :: visiting) (TypeExpr.parse head)).map (.typeVariable name)
      | bounds => .error (.severalBounds name bounds)
termination_by (s.unvisited visiting, 0)
decreasing_by exact Prod.Lex.left _ _ (unvisited_cons_lt _hp _hv)

end

/-- The type that is written as `text`. -/
def resolve (s : Scope) (text : String) : Except ResolveError JavaType :=
  s.evaluate [] (TypeExpr.ofString text)

end Scope

end JvmWeave
