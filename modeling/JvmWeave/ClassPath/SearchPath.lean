import JvmWeave.ClassPath.Entry
import JvmWeave.KeyedList

/-!
# Search paths

The index of known classes.  A search path knows classes by their canonical names, with dots also
before nested classes, and for each the entry that declared it last.

Classes come from two kinds of entries.  A compiled entry holds one class, and its path names it.  A
source entry declares types, with types nested in them, all of which have the entry as their place.
The two kinds arrive at canonical names from opposite ends: the first has all of the name in its
path and replaces separators in it, the second puts the name together from the package and the types
around a type (`declaredNames`).

For a compiled entry every `$` in the path becomes a dot (`canonicalName`).  That is right for the
mark in front of a nested class, and it is done to the names of directories as well, where it is
not: a package may have a `$` in its name.

The index is an ordered list of pairs, with the order in the type, so every search path there is has
come from registrations and lists its classes in ascending order.
-/

set_option autoImplicit false

namespace JvmWeave

/-- Whether a class of this canonical name exists. -/
abbrev ClassOracle := String → Bool

/-- A type declared in source, with the types nested in it. -/
inductive SourceType where
  | mk (name : String) (nested : List SourceType)

structure SearchPath where
  entries : List (String × String)
  ordered : KeyedList.Ordered entries

namespace SearchPath

def empty : SearchPath :=
  ⟨[], List.Pairwise.nil⟩

def register (path : SearchPath) (entry className : String) : SearchPath :=
  ⟨KeyedList.insert className entry path.entries, KeyedList.ordered_insert _ _ path.ordered⟩

/-- The canonical name of the class in an entry. -/
def canonicalName (entry : String) : String :=
  String.ofList (Text.replace '$' '.' (ClassPath.classNameOfEntry entry).toList)

/-- Registers the class of an entry.  Entries that hold no class change nothing. -/
def addEntry (path : SearchPath) (entry : String) : SearchPath :=
  if ClassPath.isClassEntry entry then path.register entry (canonicalName entry) else path

mutual

/-- The canonical names of a type and of the types nested in it, where `outer` stands in front of
its own name. -/
def declaredNames (outer : String) : SourceType → List String
  | .mk name nested => (outer ++ name) :: declaredNamesOfAll (outer ++ name ++ ".") nested

/-- The canonical names of types and of the types nested in them. -/
def declaredNamesOfAll (outer : String) : List SourceType → List String
  | [] => []
  | type :: types => declaredNames outer type ++ declaredNamesOfAll outer types

end

/-- Registers the types that a source entry declares in a package.  An empty package is the default
package. -/
def addSource (path : SearchPath) (entry package : String) (types : List SourceType) :
    SearchPath :=
  let outer := if package = "" then "" else package ++ "."
  (declaredNamesOfAll outer types).foldl (fun p name => p.register entry name) path

def entryOf? (path : SearchPath) (className : String) : Option String :=
  KeyedList.get? path.entries className

def hasClass (path : SearchPath) : ClassOracle :=
  fun className => (path.entryOf? className).isSome

def size (path : SearchPath) : Nat :=
  path.entries.length

def classNames (path : SearchPath) : List String :=
  path.entries.map Prod.fst

/-- A summary: the number of classes, then a line for each. -/
def summary (path : SearchPath) : String :=
  path.classNames.foldl (fun text name => text ++ "\n" ++ name)
    ("SearchPath: " ++ toString path.size ++ " classes")

end SearchPath

end JvmWeave
