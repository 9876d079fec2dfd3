import JvmWeave.Text.Cut
import JvmWeave.Text.Uppercase

/-!
# Binary names

Names of classes as class files write them: the packages and the class separated by `/`, and a
nested class after its outer class and `$`, as in `java/util/Map$Entry`.

A `BinaryName` carries the proof that its text is well formed, so every name that is handed on has
been checked.  What is checked is little.  The text is cut at its slashes, no piece may be empty,
and no piece may have a character that descriptors and signatures use for themselves.  Nothing is
asked of the mark `$`: it is a character of identifiers, and a name like `a/B$` passes.

Dotted names are another matter.  They do not say where the package ends, and there are two ways to
turn one into a binary name.

* `ofDotted` takes every dot for a slash.  It is meant for names in which nested classes have kept
  their `$`, and reads any other name as that of a class that is in no other.
* `guess` goes by capital letters.  The separators are chosen first and the result is checked then,
  as one text.  An empty part that got a `$` next to it is no empty piece any more.

`guess` joins from the left, with a look at all parts that follow (`joinGuessed`), and leaves the
last part out of account: what is last is a class, however it is written.
-/

set_option autoImplicit false

namespace JvmWeave

/-- Why a text is no name of a class. -/
inductive NameFlaw where
  /-- The text is empty. -/
  | empty
  /-- Nothing stands before, after or between separators. -/
  | emptySegment
  /-- A character has a meaning of its own in descriptors or signatures. -/
  | illegalCharacter
  deriving DecidableEq, Repr

/-- A text that is no name of a class, and why. -/
structure InvalidName where
  name : String
  flaw : NameFlaw
  deriving DecidableEq, Repr

def InvalidName.message (e : InvalidName) : String :=
  "Binary name '" ++ e.name ++
    match e.flaw with
    | .empty => "' is empty"
    | .emptySegment => "' has an empty segment"
    | .illegalCharacter => "' contains an illegal character"

namespace BinaryName

/-- Characters that cannot be part of a name. -/
def isReserved (c : Char) : Bool :=
  c = '.' || c = ';' || c = '[' || c = '<' || c = '>'

def segmentFlaw? (part : List Char) : Option NameFlaw :=
  if part.isEmpty then some .emptySegment
  else if part.any isReserved then some .illegalCharacter
  else none

/-- What is wrong with a name: the first part with a flaw decides. -/
def flaw? (name : List Char) : Option NameFlaw :=
  if name.isEmpty then some .empty
  else (Text.split '/' name).findSome? segmentFlaw?

end BinaryName

/-- A well-formed name of a class or interface. -/
structure BinaryName where
  text : String
  noFlaw : BinaryName.flaw? text.toList = none
  deriving DecidableEq

namespace BinaryName

def ofString (text : String) : Except InvalidName BinaryName :=
  match h : flaw? text.toList with
  | none => .ok ⟨text, h⟩
  | some flaw => .error ⟨text, flaw⟩

/-- The name of the class that is written with dots.  Nested classes keep their `$`. -/
def ofDotted (dotted : String) : Except InvalidName BinaryName :=
  ofString (String.ofList (Text.replace '.' '/' dotted.toList))

def dotted (n : BinaryName) : String :=
  String.ofList (Text.replace '/' '.' n.text.toList)

/-- The last part, with the nested classes if there are any. -/
def simpleName (n : BinaryName) : String :=
  String.ofList ((Text.split '/' n.text.toList).getLast (Text.split_ne_nil _ _))

/-- The package with dots, and nothing for the default package. -/
def package (n : BinaryName) : String :=
  String.ofList (Text.join '.' (Text.split '/' n.text.toList).dropLast)

def descriptor (n : BinaryName) : String :=
  "L" ++ n.text ++ ";"

def annotationRoot : BinaryName := ⟨"java/lang/annotation/Annotation", by decide⟩

def classOfClasses : BinaryName := ⟨"java/lang/Class", by decide⟩

def cloneable : BinaryName := ⟨"java/lang/Cloneable", by decide⟩

def enumeration : BinaryName := ⟨"java/lang/Enum", by decide⟩

def object : BinaryName := ⟨"java/lang/Object", by decide⟩

def serializable : BinaryName := ⟨"java/io/Serializable", by decide⟩

def string : BinaryName := ⟨"java/lang/String", by decide⟩

def throwable : BinaryName := ⟨"java/lang/Throwable", by decide⟩

def wellKnown : List BinaryName :=
  [annotationRoot, classOfClasses, cloneable, enumeration, object, serializable, string, throwable]

theorem ofString_text (n : BinaryName) : ofString n.text = .ok n := by
  obtain ⟨text, h⟩ := n
  rw [ofString]
  split
  · rfl
  · next h' => rw [h] at h'; cases h'

theorem ofString_eq_ok_iff {text : String} {n : BinaryName} :
    ofString text = .ok n ↔ n.text = text := by
  constructor
  · intro h
    rw [ofString] at h
    split at h
    · cases h; rfl
    · cases h
  · rintro rfl
    exact ofString_text n

/-! ## Guessing where the package ends -/

def startsUppercase : List Char → Bool
  | [] => false
  | c :: _ => Text.isUppercase c

/-- Joins the parts of a dotted name.  A part is followed by `$` if it and all parts after it but
the last start with a capital letter, so that they read as an outer class and classes nested in it;
otherwise it is read as a package and followed by `/`. -/
def joinGuessed : List (List Char) → List Char
  | [] => []
  | [part] => part
  | part :: parts =>
    let separator := if (part :: parts).dropLast.all startsUppercase then '$' else '/'
    part ++ separator :: joinGuessed parts

/-- The name of a class written with dots throughout, under the convention that classes and only
classes start with a capital letter. -/
def guess (dotted : String) : Except InvalidName BinaryName :=
  ofString (String.ofList (joinGuessed (Text.split '.' dotted.toList)))

end BinaryName

end JvmWeave
