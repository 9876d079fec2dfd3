import JvmWeave.Scope.Basic
import JvmWeave.Scope.Error

/-!
# The class of a name

The class that a name without type arguments means.  The rules are tried in order, and the first
that matches decides, even if it then fails: imports of single classes, the package of the scope,
wildcards, and at last the name taken as fully qualified.

A name has dots for two reasons, packages and nested classes, and each rule takes its own view of
which is which.

* An import of a class may be of the class that is named, or of the outermost of the classes that
  the name runs through (`ImportMatch`).  The first comes before the second, and is recognized by
  how the import ends.
* The package of the scope takes the whole name for classes nested in each other
  (`binaryInPackage`).  It does not look for the class path's opinion on where the package ends, as
  it knows it.
* A wildcard and a qualified name have to cut the name (`binaryNameOf`).  The class path decides, by
  the shortest beginning of the name that it knows.  Where it knows none, capital letters do.

What a rule has put together is checked as a binary name at the end, in `classNamed`, and an error
there names the text that was looked up and not the one that was put together.  Up to that check all
is text, so the rules cannot fail earlier, and their results are compared as texts in the proofs.

Names are lists of characters in this module.  They are cut and joined at marks throughout, which is
a recursion on lists, and strings come in only where the class path is asked and where a name
leaves.
-/

set_option autoImplicit false

namespace JvmWeave

open Text

namespace Scope

/-- The parts of a qualified name, cut in front of the outermost class: the shortest beginning that
the class path knows ends with it. -/
def outermostClass? (s : Scope) (package : List (List Char)) :
    List (List Char) → Option (List (List Char) × List (List Char))
  | [] => none
  | part :: parts =>
    if s.knows (join '.' (package ++ [part])) then some (package, part :: parts)
    else s.outermostClass? (package ++ [part]) parts

/-- The class of a binary name, which `name` was taken to mean. -/
def classNamed (name binary : List Char) : Except ResolveError BinaryName :=
  match BinaryName.ofString (String.ofList binary) with
  | .ok n => .ok n
  | .error _ => .error (.unresolvable (String.ofList name))

/-- The binary name of a fully qualified name.  Where the class path knows no beginning of it, the
package is guessed from capital letters. -/
def binaryNameOf (s : Scope) (qualified : List Char) : Except ResolveError BinaryName :=
  match s.outermostClass? [] (split '.' qualified) with
  | some (packageParts, classParts) =>
    let package := join '/' packageParts
    let classes := join '$' classParts
    classNamed qualified (if package = [] then classes else package ++ '/' :: classes)
  | none => classNamed qualified (BinaryName.joinGuessed (split '.' qualified))

/-- How an exact import explains a name. -/
inductive ImportMatch where
  /-- The name is that of the imported class, or ends it. -/
  | whole (imported : List Char)
  /-- The first part of the name is the imported class, and the rest is nested in it. -/
  | outer (imported nested : List Char)
  deriving DecidableEq, Repr

def matchImport? (name : List Char) (i : Import) : Option ImportMatch :=
  let imported := i.name.toList
  if i.wildcard then none
  else if imported = name ∨ (stripSuffix? ('.' :: name) imported).isSome then some (.whole imported)
  else
    match name.dropWhile (· ≠ '.') with
    | [] => none
    | _ :: nested =>
      let first := name.takeWhile (· ≠ '.')
      if (stripSuffix? ('.' :: first) imported).isSome then some (.outer imported nested) else none

/-- The first exact import that explains the name. -/
def exactImport? (s : Scope) (name : List Char) : Option ImportMatch :=
  s.imports.findSome? (matchImport? name)

def importedClass (s : Scope) (name : List Char) : ImportMatch → Except ResolveError BinaryName
  | .whole imported => s.binaryNameOf imported
  | .outer imported nested =>
    match s.binaryNameOf imported with
    | .ok outer => classNamed name (outer.text.toList ++ '$' :: replace '.' '$' nested)
    | .error e => .error e

def binaryInPackage (s : Scope) (name : List Char) : List Char :=
  let package := replace '.' '/' s.package.toList
  (if package = [] then [] else package ++ ['/']) ++ replace '.' '$' name

/-- The qualified name that the first matching wildcard import gives the name. -/
def wildcardClass? (s : Scope) (name : List Char) : Option (List Char) :=
  (s.wildcards.map fun i => qualify i.name.toList name).find? s.knows

def classOf (s : Scope) (name : List Char) : Except ResolveError BinaryName :=
  match s.exactImport? name with
  | some found => s.importedClass name found
  | none =>
    if s.knows (qualify s.package.toList name) then classNamed name (s.binaryInPackage name)
    else
      match s.wildcardClass? name with
      | some qualified => s.binaryNameOf qualified
      | none =>
        if '.' ∉ name ∧ s.settings.allowDefaultPackage = false then
          .error (.ambiguousDefaultPackage (String.ofList name))
        else s.binaryNameOf name

end Scope

end JvmWeave
