import JvmWeave.AccessFlags
import JvmWeave.Method.Parameter
import JvmWeave.Method.Signature

/-!
# Declarations of methods

Who may call a method, its name and its types.  The types are kept parameter by parameter and not as
a method type, since a declaration has names and annotations for them; `methodType` puts them
together again, without type parameters, as a declaration keeps none.

`same` and `similar` differ in what they forgive.  Neither looks at annotations.  `similar` is for
finding a method among others: flags do not count, and results only up to erasure, while parameters
have to be equal with their names.
-/

set_option autoImplicit false

namespace JvmWeave

structure MethodDeclaration (φ : Type) where
  flags : AccessFlags
  name : String
  result : JavaType
  parameters : List (Parameter φ)

namespace MethodDeclaration

variable {φ : Type}

/-- The declaration of a method of a class file, whose parameters have no names. -/
def ofMethodType (flags : AccessFlags) (name : String) (m : MethodType) :
    MethodDeclaration φ :=
  ⟨flags, name, m.result, m.parameters.map fun type => { name := none, type := type }⟩

def methodType (m : MethodDeclaration φ) : MethodType :=
  ⟨none, m.parameters.map (·.type), m.result⟩

/-- Whether two declarations may be of the same method: flags do not count, and results only up to
erasure. -/
def similar (m n : MethodDeclaration φ) : Bool :=
  m.name = n.name && m.result.similar n.result && sameParameters m.parameters n.parameters

/-- Whether two declarations are equal. -/
def same (m n : MethodDeclaration φ) : Bool :=
  m.flags = n.flags && m.name = n.name && m.result = n.result &&
    sameParameters m.parameters n.parameters

def parameterText (p : Parameter φ) : String :=
  p.type.javaName ++
    match p.name with
    | some name => " " ++ name
    | none => ""

def text (m : MethodDeclaration φ) : String :=
  (if m.flags.text = "" then "" else m.flags.text ++ " ") ++ m.result.javaName ++ " " ++ m.name ++
    "(" ++ String.intercalate ", " (m.parameters.map parameterText) ++ ")"

end MethodDeclaration

end JvmWeave
