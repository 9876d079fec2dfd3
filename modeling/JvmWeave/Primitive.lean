/-!
# Primitive types

The primitive types of the virtual machine, with their letters in descriptors and their keywords in
source.  `void` is one of them here, since it has a letter and a keyword as they have.  That it is
only the result of a method is checked where types are read (`Descriptor.Token`), and that no value
of it exists shows in its width.

Letters and keywords are both given as tables from the type, and read by a search through all types.
That they can be read back, so that no two types share a letter or a keyword, is then a theorem
(`ofLetter?_eq_some_iff`, `ofKeyword?_eq_some_iff`) and not a second table that has to be kept in
step.
-/

set_option autoImplicit false

namespace JvmWeave

/-- A primitive type.  `void` is only meaningful as the result of a method. -/
inductive Primitive where
  | byte
  | char
  | double
  | float
  | int
  | long
  | short
  | boolean
  | void
  deriving DecidableEq, Repr

namespace Primitive

/-- Every primitive type once. -/
def all : List Primitive :=
  [byte, char, double, float, int, long, short, boolean, void]

def letter : Primitive → Char
  | byte => 'B'
  | char => 'C'
  | double => 'D'
  | float => 'F'
  | int => 'I'
  | long => 'J'
  | short => 'S'
  | boolean => 'Z'
  | void => 'V'

def keyword : Primitive → String
  | byte => "byte"
  | char => "char"
  | double => "double"
  | float => "float"
  | int => "int"
  | long => "long"
  | short => "short"
  | boolean => "boolean"
  | void => "void"

def ofLetter? (c : Char) : Option Primitive :=
  all.find? fun p => p.letter = c

def ofKeyword? (text : String) : Option Primitive :=
  all.find? fun p => p.keyword = text

/-- The number of slots that a value takes on the stack or among the locals. -/
def width : Primitive → Nat
  | void => 0
  | double | long => 2
  | _ => 1

def descriptor (p : Primitive) : String :=
  String.singleton p.letter

theorem mem_all (p : Primitive) : p ∈ all := by
  cases p <;> decide

theorem ofLetter?_letter (p : Primitive) : ofLetter? p.letter = some p := by
  cases p <;> rfl

theorem ofKeyword?_keyword (p : Primitive) : ofKeyword? p.keyword = some p := by
  cases p <;> rfl

/-- A letter belongs to at most one type. -/
theorem ofLetter?_eq_some_iff {c : Char} {p : Primitive} : ofLetter? c = some p ↔ p.letter = c := by
  constructor
  · intro h
    simpa using List.find?_some h
  · rintro rfl
    exact ofLetter?_letter p

/-- A keyword belongs to at most one type. -/
theorem ofKeyword?_eq_some_iff {text : String} {p : Primitive} :
    ofKeyword? text = some p ↔ p.keyword = text := by
  constructor
  · intro h
    simpa using List.find?_some h
  · rintro rfl
    exact ofKeyword?_keyword p

end Primitive

end JvmWeave
