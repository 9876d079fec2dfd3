import JvmWeave.Descriptor.Cursor
import JvmWeave.JavaType.Erasure

/-!
# Method types

A class file writes a method type as a descriptor `(IJ)V` and, where generics matter, as a signature
with type parameters in front and thrown types behind.  Reading merges both into one list of types;
writing takes the two forms apart again.

The descriptor says how many parameters there are.  A signature may have another number, as the
parameters that a compiler adds are left out of it.  The two lists cannot be matched then, and the
parameters are read from the descriptor alone.  The result is the same in both and is always
matched.

Type parameters are kept as one text, brackets included, which is written back as it was read.
Thrown types are not kept.  They follow the result behind a `^` and are cut away before the rest is
read.

`cutTopLevel` and `cutBalanced` look for a mark outside of brackets, since the text of a generic
type may contain any of the marks.  A surplus closing bracket does not count below zero.

The signature is written only if some part says more than its erasure.  It then consists of the full
forms of all types, which for most of them are just the descriptors.
-/

set_option autoImplicit false

namespace JvmWeave

open Text

structure MethodType where
  /-- The declaration of the type parameters, brackets included. -/
  typeParameters : Option String
  parameters : List JavaType
  result : JavaType
  deriving DecidableEq, Repr

/-- The text before and after the first `mark` outside of angle brackets. -/
def cutTopLevel (mark : Char) (depth : Nat) : List Char → Option (List Char × List Char)
  | [] => none
  | c :: cs =>
    if c = mark ∧ depth = 0 then some ([], cs)
    else
      let inner := if c = '<' then depth + 1 else if c = '>' then depth - 1 else depth
      (cutTopLevel mark inner cs).map fun (before, after) => (c :: before, after)

/-- The text up to the bracket that closes the first of `depth` open ones, and the text after it. -/
def cutBalanced (depth : Nat) : List Char → Option (List Char × List Char)
  | [] => none
  | c :: cs =>
    if c = '>' ∧ depth = 1 then some ([c], cs)
    else
      let inner := if c = '<' then depth + 1 else if c = '>' then depth - 1 else depth
      (cutBalanced inner cs).map fun (group, rest) => (c :: group, rest)

namespace MethodType

def splitMethod (dialect : Dialect) (input : List Char) :
    Except Malformed (List String × String) :=
  let malformed (offset : Nat) (fault : Fault) : Malformed :=
    ⟨dialect, String.ofList input, offset, fault⟩
  match stripPrefix? ['('] input with
  | none => .error (malformed 0 .missingOpen)
  | some inner =>
    match cutTopLevel ')' 0 inner with
    | none => .error (malformed (utf8Length input) .missingClose)
    | some (list, after) => do
      let parameters ← splitTypes dialect (String.ofList list)
      let start := utf8Length list + 1
      match readToken dialect after with
      | .error e => .error (e.within dialect (String.ofList inner) start)
      | .ok (result, rest) =>
        if rest = [] then .ok (parameters.getD [], String.ofList result)
        else .error (malformed (start + utf8Length result + 1) .afterResult)

def splitTypeParameters (signature : List Char) :
    Except Malformed (Option (List Char) × List Char) :=
  if signature.head? = some '<' then
    match cutBalanced 0 signature with
    | some (group, rest) => .ok (some group, rest)
    | none =>
      .error ⟨.signature, String.ofList signature, utf8Length signature, .unterminatedParameters⟩
  else .ok (none, signature)

def withoutThrown (signature : List Char) : List Char :=
  match cutTopLevel '^' 0 signature with
  | some (before, _) => before
  | none => signature

/-- Reads a method type.  A signature with another number of parameters than the descriptor only
adds to the result. -/
def parse (descriptor : String) (signature : Option String) : Except Malformed MethodType := do
  let (parameters, result) ← splitMethod .descriptor descriptor.toList
  match signature with
  | none =>
    let types ← parameters.mapM JavaType.ofDescriptor
    return ⟨none, types, ← JavaType.ofDescriptor result⟩
  | some signature =>
    let (typeParameters, rest) ← splitTypeParameters signature.toList
    let (genericParameters, genericResult) ← splitMethod .signature (withoutThrown rest)
    let types ←
      if genericParameters.length = parameters.length then
        (parameters.zip genericParameters).mapM fun (d, s) => JavaType.ofSignature d s
      else parameters.mapM JavaType.ofDescriptor
    let type ← JavaType.ofSignature result genericResult
    return ⟨typeParameters.map String.ofList, types, type⟩

def descriptor (m : MethodType) : String :=
  "(" ++ String.join (m.parameters.map (·.descriptor)) ++ ")" ++ m.result.descriptor

def isGeneric (m : MethodType) : Bool :=
  m.typeParameters.isSome || m.result.signature.isSome ||
    m.parameters.any fun p => p.signature.isSome

/-- The generic form, if it says more than the descriptor. -/
def signature? (m : MethodType) : Option String :=
  if m.isGeneric then
    some (m.typeParameters.getD "" ++ "(" ++ String.join (m.parameters.map (·.full)) ++ ")" ++
      m.result.full)
  else none

end MethodType

end JvmWeave
