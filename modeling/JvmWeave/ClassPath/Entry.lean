import JvmWeave.Text.Cut

/-!
# Entries of archives

Names of classes and of the files that hold them.  An archive or directory entry such as
`java/util/List.class` holds the class of that path.

The name of the class is read off the path without looking inside.  Endings of compiled and of
source files are taken away one after the other, so a name with both loses both.  Separators of
either kind become dots, and one at the start is dropped, as some archives write it.  The mark `$`
of nested classes is left alone: this is the name of the file's class as class files have it, and
the canonical name is made from it where classes are registered.
-/

set_option autoImplicit false

namespace JvmWeave.ClassPath

def withoutSuffix (ending text : List Char) : List Char :=
  (Text.stripSuffix? ending text).getD text

/-- Whether the entry holds a class or the source of one. -/
def isClassEntry (entry : String) : Bool :=
  (Text.stripSuffix? ".class".toList entry.toList).isSome ||
    (Text.stripSuffix? ".java".toList entry.toList).isSome

/-- The dotted name of the class in an entry.  Separators of both kinds become dots, and one at the
start is dropped. -/
def classNameOfEntry (entry : String) : String :=
  let path := withoutSuffix ".java".toList (withoutSuffix ".class".toList entry.toList)
  let name := Text.replace '/' '.' (Text.replace '\\' '.' path)
  String.ofList ((Text.stripPrefix? ['.'] name).getD name)

def entryOfClassName (name : String) : String :=
  String.ofList (Text.replace '.' '/' name.toList) ++ ".class"

end JvmWeave.ClassPath
