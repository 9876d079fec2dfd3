import JvmWeave.Descriptor.Token

/-!
# Resolved types

A type is an erased descriptor, and a signature where generics matter.  Both are kept as the texts
that class files have, and whatever is asked of a type is read off one of them.

The pair is not a tree, and that is the point.  The descriptor decides almost everything: what kind
of type it is, which slots its values take, what it is assignable to.  The signature says more and
decides nothing, so that code which knows nothing about generics can carry it along.  Two types are
equal if both texts are, and `similar` if the descriptors are.

Besides the types that can be written in a descriptor there are two that only describe values.  The
unknown type has the descriptor `?`, and a union the descriptors of its members with `|` between
them.  Neither character begins or separates anything else, so `category` tests for these two before
it looks at the first letter.  It tests for `|` anywhere in the text, and therefore takes a class
with that character in its name for a union.

The constructors put descriptors together and check nothing, with the exception of `ofClass`, since
a class comes with a name that may be ill formed.  A type variable takes its descriptor from its
bound.  It stays what it was for everybody who looks at descriptors, and is told from its bound by
the signature alone.  An array has the dimension in front of both texts, where there are two, so
`element?` takes it away from both.
-/

set_option autoImplicit false

namespace JvmWeave

/-- A resolved type. -/
structure JavaType where
  /-- The erased type, a single token. -/
  descriptor : String
  /-- The generic form, where it says more than the descriptor. -/
  signature : Option String
  deriving DecidableEq, Repr

/-- The rough kind of a type. -/
inductive Category where
  | primitive (p : Primitive)
  | array
  | classType
  /-- A value of unknown type. -/
  | value
  /-- One of several types. -/
  | union
  deriving DecidableEq, Repr

def Category.name : Category → String
  | primitive .byte => "Byte"
  | primitive .char => "Char"
  | primitive .double => "Double"
  | primitive .float => "Float"
  | primitive .int => "Int"
  | primitive .long => "Long"
  | primitive .short => "Short"
  | primitive .boolean => "Boolean"
  | primitive .void => "Void"
  | array => "Array"
  | classType => "Class"
  | value => "Value"
  | union => "Union"

/-- The number of `[` at the start of a descriptor or signature. -/
def dimensionsOf (text : List Char) : Nat :=
  (text.takeWhile (· = '[')).length

/-- What follows the `[` at the start of a descriptor or signature. -/
def elementOf (text : List Char) : List Char :=
  text.dropWhile (· = '[')

namespace JavaType

/-! ## Construction -/

/-- A type without generics. -/
def erased (descriptor : String) : JavaType :=
  ⟨descriptor, none⟩

def primitive (p : Primitive) : JavaType :=
  erased p.descriptor

/-- The class or interface of this name. -/
def ofBinaryName (name : BinaryName) : JavaType :=
  erased name.descriptor

/-- The class of a dotted name, where nested classes keep their `$`. -/
def ofClass (dotted : String) : Except Malformed JavaType :=
  match BinaryName.ofDotted dotted with
  | .ok name => .ok (ofBinaryName name)
  | .error cause => .error ⟨.descriptor, dotted, 0, .invalidName cause⟩

/-- The type variable of this name, which erases to its bound. -/
def typeVariable (name : String) (bound : JavaType) : JavaType :=
  ⟨bound.descriptor, some ("T" ++ name ++ ";")⟩

def arrayOf (element : JavaType) : JavaType :=
  ⟨"[" ++ element.descriptor, element.signature.map ("[" ++ ·)⟩

/-- The type of a value of which nothing is known. -/
def unknown : JavaType :=
  erased "?"

/-- The type of a value that has one of the member types. -/
def unionOf (members : List JavaType) : JavaType :=
  erased (String.ofList (Text.join '|' (members.map fun m => m.descriptor.toList)))

def object : JavaType := ofBinaryName .object

def string : JavaType := ofBinaryName .string

def void : JavaType := primitive .void

/-! ## Parts -/

/-- The generic form if there is one, and else the descriptor. -/
def full (t : JavaType) : String :=
  t.signature.getD t.descriptor

def category (t : JavaType) : Category :=
  if t.descriptor = "?" then .value
  else if t.descriptor.toList.contains '|' then .union
  else
    match t.descriptor.toList with
    | [] => .value
    | c :: _ =>
      if c = '[' then .array
      else if c = 'L' then .classType
      else
        match Primitive.ofLetter? c with
        | some p => .primitive p
        | none => .value

/-- The primitive type, if the descriptor is its letter. -/
def primitive? (t : JavaType) : Option Primitive :=
  match t.descriptor.toList with
  | [c] => Primitive.ofLetter? c
  | _ => none

def isPrimitive (t : JavaType) : Bool :=
  t.primitive?.isSome

/-- The name of the type variable, if the type is one. -/
def variableName? (t : JavaType) : Option String :=
  match t.signature.map String.toList with
  | some ('T' :: rest) => some (String.ofList rest.dropLast)
  | _ => none

def isVariable (t : JavaType) : Bool :=
  t.variableName?.isSome

def isArray (t : JavaType) : Bool :=
  t.descriptor.toList.head? = some '['

/-- How many times elements are taken until no array is left. -/
def dimensions (t : JavaType) : Nat :=
  dimensionsOf t.descriptor.toList

def element? (t : JavaType) : Option JavaType :=
  match t.descriptor.toList with
  | '[' :: rest =>
    some ⟨String.ofList rest,
      t.signature.bind fun s => (Text.stripPrefix? ['['] s.toList).map String.ofList⟩
  | _ => none

def binaryName? (t : JavaType) : Option BinaryName :=
  if t.category = .classType then
    (BinaryName.ofString (String.ofList t.descriptor.toList.tail.dropLast)).toOption
  else none

def className? (t : JavaType) : Option String :=
  t.binaryName?.map BinaryName.dotted

/-- Whether both types have the same erasure. -/
def similar (a b : JavaType) : Bool :=
  a.descriptor = b.descriptor

end JavaType

end JvmWeave
