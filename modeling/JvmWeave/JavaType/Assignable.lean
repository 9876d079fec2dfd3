import JvmWeave.JavaType.Basic

/-!
# Assignability

Whether a value of one type can be used where another is expected, as far as that can be decided
without knowing any class.

Without a class hierarchy the answer has to be one-sided.  Equal erasures are assignable.  Between
classes only the class above all classes is known to accept others, and everything else is refused.
The small integers widen to `int`, as they are held as one, but `int` does not widen to `long`: what
is meant here is that no instruction is needed.

Arrays are covariant in elements that are not primitive, and every array is an object, cloneable and
serializable.  So an array of more dimensions goes into one of fewer if what is left of the target
accepts arrays, and arrays of equal dimensions are compared by their innermost types, where the
widening of integers does not apply.

The comparison is of descriptors throughout.  Unknown types and unions accept and go into themselves
only, by the first clause.
-/

set_option autoImplicit false

namespace JvmWeave

/-- The classes and interfaces that accept every array. -/
def arraySupertypes : List BinaryName :=
  [.object, .cloneable, .serializable]

/-- The primitive types whose values are held as `int`. -/
def Primitive.widensToInt : Primitive → Bool
  | byte | char | short | boolean => true
  | _ => false

namespace JavaType

def acceptsArrays (t : JavaType) : Bool :=
  match t.binaryName? with
  | some name => arraySupertypes.contains name
  | none => false

/-- Assignability where not both types are arrays. -/
def isAssignableFlat (source target : JavaType) : Bool :=
  source.descriptor = target.descriptor ||
    match source.category, target.category with
    | .primitive p, .primitive .int => p.widensToInt
    | .classType, .classType => target.binaryName? = some .object
    | .array, .classType => target.acceptsArrays
    | _, _ => false

/-- What is left of the type when all its dimensions are taken away. -/
def innermost (t : JavaType) : JavaType :=
  erased (String.ofList (elementOf t.descriptor.toList))

/-- Assignability of arrays with different descriptors. -/
def isAssignableArray (source target : JavaType) : Bool :=
  if source.dimensions = target.dimensions then
    !source.innermost.isPrimitive && !target.innermost.isPrimitive &&
      isAssignableFlat source.innermost target.innermost
  else if target.dimensions < source.dimensions then target.innermost.acceptsArrays
  else false

/-- Whether a value of type `source` can be used where one of type `target` is expected. -/
def isAssignable (source target : JavaType) : Bool :=
  source.descriptor = target.descriptor ||
    if source.category = .array ∧ target.category = .array then isAssignableArray source target
    else isAssignableFlat source target

end JavaType

end JvmWeave
