import JvmWeave.Decimal.Text
import JvmWeave.JavaType.SourceName
import JvmWeave.KeyedList

/-!
# Annotations

Annotations and the values of their members.  Members are kept in ascending order of their names, in
a list that is only changed by inserting under a key.  So what is written out does not depend on the
order in which members were given.

There are two equalities.  Equality of the data compares floating-point values by their bits.
`agrees` compares them as numbers, so that a value that is no number differs from itself and the two
zeros are equal.  It is the one that users see, and the other one is the one to prove things with.

A value may be an annotation and an annotation has values, so both are defined together.  The
structure `AnnotationOf` is open in the kind of its members, which lets `AnnotationValue` be an
ordinary inductive type with `AnnotationOf AnnotationValue` nested in it.  The functions on it come
in families of three, for a value, a list of values and a list of members, each by structural
recursion.

Source form and diagnostics are two texts of the same tree and share no code, since hardly any of
their cases agree: source qualifies all types, quotes as source does and marks the width of numbers,
and diagnostics show constructors.
-/

set_option autoImplicit false

namespace JvmWeave

/-- An annotation with members of some kind. -/
structure AnnotationOf (α : Type) where
  type : JavaType
  members : List (String × α)
  deriving DecidableEq, Repr

inductive AnnotationValue where
  | boolean (value : Bool)
  | byte (value : Int8)
  | char (value : Char)
  | short (value : Int16)
  | int (value : Int32)
  | long (value : Int64)
  | float (value : Binary32)
  | double (value : Binary64)
  | string (value : String)
  /-- A class literal. -/
  | type (value : JavaType)
  | enumConstant (type : JavaType) (constant : String)
  | nested (value : AnnotationOf AnnotationValue)
  | array (values : List AnnotationValue)

abbrev Annotation := AnnotationOf AnnotationValue

/-! ## Comparison -/

mutual

/-- Whether two values are equal, floating-point values being compared as numbers. -/
def AnnotationValue.agrees : AnnotationValue → AnnotationValue → Bool
  | .boolean a, .boolean b => a = b
  | .byte a, .byte b => a = b
  | .char a, .char b => a = b
  | .short a, .short b => a = b
  | .int a, .int b => a = b
  | .long a, .long b => a = b
  | .float a, .float b => a.value.equals b.value
  | .double a, .double b => a.value.equals b.value
  | .string a, .string b => a = b
  | .type a, .type b => a = b
  | .enumConstant t a, .enumConstant u b => t = u && a = b
  | .nested ⟨t, ms⟩, .nested ⟨u, ns⟩ => t = u && membersAgree ms ns
  | .array as, .array bs => valuesAgree as bs
  | _, _ => false

def valuesAgree : List AnnotationValue → List AnnotationValue → Bool
  | [], [] => true
  | a :: as, b :: bs => a.agrees b && valuesAgree as bs
  | _, _ => false

def membersAgree : List (String × AnnotationValue) → List (String × AnnotationValue) → Bool
  | [], [] => true
  | (m, a) :: as, (n, b) :: bs => m = n && a.agrees b && membersAgree as bs
  | _, _ => false

end

/-! ## Source form -/

mutual

/-- The value as source writes it, with all types fully qualified. -/
def AnnotationValue.text : AnnotationValue → String
  | .boolean b => toString b
  | .byte n => toString n.toInt
  | .char c => Text.quotedChar c
  | .short n => toString n.toInt
  | .int n => toString n.toInt
  | .long n => toString n.toInt ++ "L"
  | .float x => x.text ++ "f"
  | .double x => x.text
  | .string s => Text.quoted s
  | .type t => t.javaName ++ ".class"
  | .enumConstant t constant => t.javaName ++ "." ++ constant
  | .nested ⟨t, members⟩ =>
    "@" ++ t.javaName ++
      if members.isEmpty then "" else "(" ++ String.intercalate ", " (memberTexts members) ++ ")"
  | .array values => "\x7b" ++ String.intercalate ", " (valueTexts values) ++ "\x7d"

def valueTexts : List AnnotationValue → List String
  | [] => []
  | v :: vs => v.text :: valueTexts vs

def memberTexts : List (String × AnnotationValue) → List String
  | [] => []
  | (name, v) :: rest => (name ++ "=" ++ v.text) :: memberTexts rest

end

/-! ## Diagnostics -/

mutual

/-- The value as diagnostics show it. -/
def AnnotationValue.diagnostic : AnnotationValue → String
  | .boolean b => Text.Diagnostic.tagged "Boolean" (toString b)
  | .byte n => Text.Diagnostic.tagged "Byte" (toString n.toInt)
  | .char c => Text.Diagnostic.tagged "Char" (Text.quotedChar c)
  | .short n => Text.Diagnostic.tagged "Short" (toString n.toInt)
  | .int n => Text.Diagnostic.tagged "Int" (toString n.toInt)
  | .long n => Text.Diagnostic.tagged "Long" (toString n.toInt)
  | .float x => Text.Diagnostic.tagged "Float" x.diagnostic
  | .double x => Text.Diagnostic.tagged "Double" x.diagnostic
  | .string s => Text.Diagnostic.tagged "String" (Text.quoted s)
  | .type t => Text.Diagnostic.tagged "Type" t.diagnostic
  | .enumConstant t constant =>
    Text.Diagnostic.record "Enum" [("enum_type", t.diagnostic), ("constant", Text.quoted constant)]
  | .nested ⟨t, members⟩ =>
    Text.Diagnostic.tagged "Annotation"
      (Text.Diagnostic.record "Annotation"
        [("annotation_type", t.diagnostic),
          ("values", Text.Diagnostic.dictionary (memberDiagnostics members))])
  | .array values => Text.Diagnostic.tagged "Array" (Text.Diagnostic.list (valueDiagnostics values))

def valueDiagnostics : List AnnotationValue → List String
  | [] => []
  | v :: vs => v.diagnostic :: valueDiagnostics vs

def memberDiagnostics : List (String × AnnotationValue) → List (String × String)
  | [] => []
  | (name, v) :: rest => (name, v.diagnostic) :: memberDiagnostics rest

end

namespace Annotation

def marker (type : JavaType) : Annotation :=
  ⟨type, []⟩

/-- The annotation with one more member, which replaces one of the same name. -/
def withMember (a : Annotation) (name : String) (value : AnnotationValue) : Annotation :=
  ⟨a.type, KeyedList.insert name value a.members⟩

def get? (a : Annotation) (name : String) : Option AnnotationValue :=
  KeyedList.get? a.members name

def isMarker (a : Annotation) : Bool :=
  a.members.isEmpty

/-- Whether two annotations are equal, floating-point values being compared as numbers. -/
def agrees (a b : Annotation) : Bool :=
  (AnnotationValue.nested a).agrees (.nested b)

def text (a : Annotation) : String :=
  (AnnotationValue.nested a).text

def diagnostic (a : Annotation) : String :=
  Text.Diagnostic.record "Annotation"
    [("annotation_type", a.type.diagnostic),
      ("values", Text.Diagnostic.dictionary (memberDiagnostics a.members))]

end Annotation

end JvmWeave
