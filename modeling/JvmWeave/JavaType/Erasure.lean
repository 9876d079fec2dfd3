import JvmWeave.JavaType.Basic

/-!
# Erasure

How the generic form of a type relates to its descriptor.

`erasure?` computes the descriptor of a signature: type arguments are dropped, and the dot before an
inner class becomes `$`.  A type variable has no erasure of its own, as it may stand for any class.
For it the relation `erasesTo` takes the place of the function, and accepts every class of the same
dimension.

The checked constructors `ofDescriptor` and `ofSignature` are the only way for texts from outside to
become types.  Both demand a single token with nothing behind it, and their errors say how far the
token went.  A generic form that is equal to the descriptor says nothing, and is dropped, so that it
makes no difference to equality whether it was given.

Inside of a generic form there are types without a descriptor next to them.  `ofGeneric?` supplies
one, with the class above all classes for type variables, whose bounds are not at hand there.
-/

set_option autoImplicit false

namespace JvmWeave

/-- A class without the type arguments in it, inside of `depth` open brackets.  The dot before an
inner class becomes `$`. -/
def eraseClass : Nat → List Char → List Char
  | _, [] => []
  | depth, c :: cs =>
    if c = '<' then eraseClass (depth + 1) cs
    else if c = '>' then eraseClass (depth - 1) cs
    else if depth = 0 then (if c = '.' then '$' else c) :: eraseClass 0 cs
    else eraseClass depth cs

/-- The descriptor of a signature that is no type variable and no array of one. -/
def erasure? : List Char → Option (List Char)
  | [] => none
  | c :: cs =>
    if c = '[' then (erasure? cs).map ('[' :: ·)
    else if c = 'T' then none
    else if c = 'L' then some (eraseClass 0 (c :: cs))
    else some (c :: cs)

/-- Whether a signature is a type variable or an array of one. -/
def isVariableSignature (signature : List Char) : Bool :=
  (elementOf signature).head? = some 'T'

/-- Whether a signature is a generic form of a descriptor. -/
def erasesTo (signature descriptor : List Char) : Bool :=
  if isVariableSignature signature then
    dimensionsOf descriptor = dimensionsOf signature && (elementOf descriptor).head? = some 'L'
  else erasure? signature = some descriptor

/-- Accepts an input that is exactly one token. -/
def requireToken (dialect : Dialect) (input : String) : Except Malformed Unit :=
  match readToken dialect input.toList with
  | .error e => .error (e.within dialect input 0)
  | .ok (token, rest) =>
    if rest = [] then .ok ()
    else .error ⟨dialect, input, Text.utf8Length token, .leftover (String.ofList rest)⟩

namespace JavaType

/-- The type with this descriptor. -/
def ofDescriptor (descriptor : String) : Except Malformed JavaType := do
  requireToken .descriptor descriptor
  return erased descriptor

/-- The type with this descriptor and generic form.  A generic form equal to the descriptor says
nothing and is dropped; any other must erase to the descriptor. -/
def ofSignature (descriptor signature : String) : Except Malformed JavaType := do
  let t ← ofDescriptor descriptor
  requireToken .signature signature
  if signature = descriptor then return t
  if erasesTo signature.toList descriptor.toList then return ⟨descriptor, some signature⟩
  throw ⟨.signature, signature, 0, .otherErasure descriptor⟩

def ofParts (descriptor : String) (signature : Option String) : Except Malformed JavaType :=
  match signature with
  | none => ofDescriptor descriptor
  | some signature => ofSignature descriptor signature

/-- The type that a signature stands for when the bounds of type variables are not known: they
erase to the class above all classes. -/
def ofGeneric? (signature : List Char) : Option JavaType :=
  let descriptor? :=
    if isVariableSignature signature then
      some (signature.takeWhile (· = '[') ++ BinaryName.object.descriptor.toList)
    else erasure? signature
  descriptor?.bind fun descriptor =>
    (ofSignature (String.ofList descriptor) (String.ofList signature)).toOption

/-- The generic form of such a type is the signature it was made from. -/
theorem signature_of_ofGeneric? {signature : List Char} {t : JavaType}
    (h : ofGeneric? signature = some t) :
    t.signature = none ∨ t.signature = some (String.ofList signature) := by
  rw [ofGeneric?, Option.bind_eq_some_iff] at h
  obtain ⟨descriptor, _, h⟩ := h
  rw [ofSignature, ofDescriptor] at h
  cases h₁ : requireToken .descriptor (String.ofList descriptor) with
  | error e => simp [h₁, bind, Except.bind, Except.toOption] at h
  | ok _ =>
    cases h₂ : requireToken .signature (String.ofList signature) with
    | error e => simp [h₁, h₂, bind, Except.bind, pure, Except.pure, Except.toOption] at h
    | ok _ =>
      simp only [h₁, h₂, bind, Except.bind, pure, Except.pure] at h
      split at h
      · simp only [Except.toOption, Option.some.injEq] at h
        subst h
        exact .inl rfl
      · split at h
        · simp only [Except.toOption, Option.some.injEq] at h
          subst h
          exact .inr rfl
        · simp [throw, throwThe, MonadExceptOf.throw, Except.toOption] at h

end JavaType

end JvmWeave
