import JvmWeave.Scope.Import

/-!
# Scopes

All that decides what a name in source means at one declaration: the package that it is in, the
imports, the type parameters of the declarations around it, the classes that are known, and two
choices that the language leaves open.

The class path is a function and not a list.  Resolution only ever asks whether a class of a given
name exists, and whoever has another way to answer that than a `SearchPath` may use it.  So nothing
is known about a class path unless a theorem says that it comes from a search path, and no theorem
on scopes can lean on how classes are stored.

Imports are in the order in which they are written, and type parameters the other way round, with
the innermost declaration first.  Both orders matter: of several imports that explain a name the
first one decides, and `parameter?` finds the innermost parameter of a name because it looks from
the front.  Entering a declaration (`enter`) therefore puts its parameters in front, and hides outer
ones without taking them out.  They can still be reached, through the bounds of others.

`wildcards` has `java.lang` behind all that is written, so that it is tried last.  As a wildcard
like any other it needs no rule of its own.
-/

set_option autoImplicit false

namespace JvmWeave

/-- A type parameter of an enclosing declaration. -/
structure TypeParameter where
  name : String
  /-- The bounds as they are written. -/
  bounds : List String
  deriving DecidableEq, Repr

/-- Choices that the language leaves open. -/
structure ScopeSettings where
  /-- Whether an unqualified name that nothing else explains is a class of the default package. -/
  allowDefaultPackage : Bool := false
  /-- Whether `java.lang` is imported after all imports that are written. -/
  implicitJavaLang : Bool := true
  deriving DecidableEq, Repr

structure Scope where
  package : String
  imports : List Import
  /-- The type parameters in scope, innermost declarations first. -/
  typeParameters : List TypeParameter
  /-- The classes that are known to exist. -/
  classPath : ClassOracle
  settings : ScopeSettings

/-- Settings from the text of an environment variable that may be unset: the default package is
allowed by `true` in any mixture of small and capital letters. -/
def ScopeSettings.ofEnvironment (value : Option String) : ScopeSettings :=
  { allowDefaultPackage :=
      match value with
      | some text => text.toList.map Char.toLower = "true".toList
      | none => false }

namespace Scope

/-- The scope of a nested declaration.  Its own type parameters hide outer ones of the same
name. -/
def enter (s : Scope) (inner : List TypeParameter) : Scope :=
  { s with typeParameters := inner ++ s.typeParameters }

/-- The innermost type parameter of a name. -/
def parameter? (s : Scope) (name : String) : Option TypeParameter :=
  s.typeParameters.find? fun p => p.name = name

def knows (s : Scope) (qualified : List Char) : Bool :=
  s.classPath (String.ofList qualified)

/-- The imports of whole packages, in the order in which they are tried. -/
def wildcards (s : Scope) : List Import :=
  s.imports.filter (·.wildcard) ++ if s.settings.implicitJavaLang then [Import.implicit] else []

/-- A name in a package.  The default package has no name. -/
def qualify (package name : List Char) : List Char :=
  if package = [] then name else package ++ '.' :: name

end Scope

def TypeParameter.diagnostic (p : TypeParameter) : String :=
  Text.Diagnostic.record "TypeParameter"
    [("name", Text.quoted p.name), ("bounds", Text.Diagnostic.texts p.bounds)]

def ScopeSettings.diagnostic (s : ScopeSettings) : String :=
  Text.Diagnostic.record "ResolutionSettings"
    [("allow_default_package", toString s.allowDefaultPackage),
      ("implicit_java_lang", toString s.implicitJavaLang)]

/-- The scope as diagnostics show it, without its class path. -/
def Scope.diagnostic (s : Scope) : String :=
  Text.Diagnostic.record "ResolutionContext"
    [("package_name", Text.quoted s.package),
      ("imports", Text.Diagnostic.list (s.imports.map Import.diagnostic)),
      ("type_parameters", Text.Diagnostic.list (s.typeParameters.map TypeParameter.diagnostic)),
      ("settings", s.settings.diagnostic)]

end JvmWeave
