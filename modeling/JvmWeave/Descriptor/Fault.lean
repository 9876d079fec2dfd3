import JvmWeave.BinaryName

/-!
# Faults in written types

A type is written in one of two dialects.  Whatever is wrong with a written type is reported as a
`Malformed` value: the dialect, the input, the byte offset of the fault in it, and the fault.

Faults are a type of their own and not texts, so that they can be told apart without looking at any
wording.  The wording is in `Fault.message`, which takes the offset since one of the messages quotes
it.

The faults of tokens, of whole types, of method types and of names are together in one type.  They
all end up in the same `Malformed`, and readers on different levels report the same ones: a class
without a semicolon, for instance, is met wherever a type is read.
-/

set_option autoImplicit false

namespace JvmWeave

/-- The two ways to write types in class files. -/
inductive Dialect where
  /-- Erased types only. -/
  | descriptor
  /-- Types with type variables and type arguments. -/
  | signature
  deriving DecidableEq, Repr

/-- What can be wrong with a written type. -/
inductive Fault where
  /-- A class or type variable has no `;`. -/
  | missingTerminator (text : String)
  /-- A descriptor has no type arguments. -/
  | angleInDescriptor
  /-- A `>` closes nothing. -/
  | unbalancedAngle
  /-- No type starts with the character. -/
  | unexpectedCharacter (found : Char) (searched : String)
  /-- The input ends where a type should start. -/
  | endOfInput
  /-- One type was expected, and more input follows it. -/
  | leftover (rest : String)
  /-- The signature is no generic form of the descriptor. -/
  | otherErasure (descriptor : String)
  /-- Only class types have type arguments. -/
  | argumentsOnOther
  /-- Only class types are types of annotations. -/
  | annotationOfOther
  /-- The angle brackets of a name do not match. -/
  | mismatchedAngles
  /-- The name of a class is not well formed. -/
  | invalidName (cause : InvalidName)
  /-- A method type does not start with its parameters. -/
  | missingOpen
  /-- The parameters of a method type do not end. -/
  | missingClose
  /-- Something follows the result of a method type. -/
  | afterResult
  /-- The type parameters of a method do not end. -/
  | unterminatedParameters
  deriving DecidableEq, Repr

/-- A written type with a fault at a byte offset. -/
structure Malformed where
  dialect : Dialect
  input : String
  offset : Nat
  fault : Fault
  deriving DecidableEq, Repr

def Fault.message (offset : Nat) : Fault → String
  | missingTerminator text => "Missing terminator for '" ++ text ++ "'"
  | angleInDescriptor => "Illegal character '<' in descriptor"
  | unbalancedAngle => "Unbalanced '>' in class type"
  | unexpectedCharacter found searched =>
    "Unexpected character '" ++ String.singleton found ++ "', searched section '" ++ searched ++ "'"
  | endOfInput => "Reached " ++ toString offset ++ " before the end of a type"
  | leftover rest => "Unexpected leftover input '" ++ rest ++ "'"
  | otherErasure descriptor => "Signature does not erase to '" ++ descriptor ++ "'"
  | argumentsOnOther => "Only class types can have generic arguments"
  | annotationOfOther => "Annotation types must be classes"
  | mismatchedAngles => "Mismatched angled brackets"
  | invalidName cause => cause.message
  | missingOpen => "Expected '('"
  | missingClose => "Missing ')'"
  | afterResult => "Unexpected input after return type"
  | unterminatedParameters => "Unterminated type parameters"

def Malformed.message (m : Malformed) : String :=
  let kind :=
    match m.dialect with
    | .descriptor => "descriptor"
    | .signature => "signature"
  "malformed " ++ kind ++ " '" ++ m.input ++ "' at " ++ toString m.offset ++ ": " ++
    m.fault.message m.offset

end JvmWeave
