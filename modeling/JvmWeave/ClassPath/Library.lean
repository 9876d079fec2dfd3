import JvmWeave.ClassPath.SearchPath

/-!
# Classes of the platform

The classes of the platform that code refers to most often, for scopes without a class path of their
own.  The list has binary names, as an archive of the platform would, and is turned into a search
path by the same call that registers entries of any other archive.
-/

set_option autoImplicit false

namespace JvmWeave.SearchPath

def libraryClasses : List String :=
  [ "java/io/IOException",
    "java/io/PrintStream",
    "java/io/Serializable",
    "java/lang/Boolean",
    "java/lang/Byte",
    "java/lang/CharSequence",
    "java/lang/Character",
    "java/lang/Class",
    "java/lang/Cloneable",
    "java/lang/Comparable",
    "java/lang/Deprecated",
    "java/lang/Double",
    "java/lang/Enum",
    "java/lang/Error",
    "java/lang/Exception",
    "java/lang/Float",
    "java/lang/FunctionalInterface",
    "java/lang/Integer",
    "java/lang/Iterable",
    "java/lang/Long",
    "java/lang/Math",
    "java/lang/Number",
    "java/lang/Object",
    "java/lang/Override",
    "java/lang/Runnable",
    "java/lang/RuntimeException",
    "java/lang/Short",
    "java/lang/String",
    "java/lang/StringBuilder",
    "java/lang/SuppressWarnings",
    "java/lang/System",
    "java/lang/Thread",
    "java/lang/Throwable",
    "java/lang/Void",
    "java/lang/annotation/Annotation",
    "java/lang/annotation/Retention",
    "java/lang/annotation/RetentionPolicy",
    "java/lang/annotation/Target",
    "java/util/ArrayList",
    "java/util/Collection",
    "java/util/HashMap",
    "java/util/HashSet",
    "java/util/Iterator",
    "java/util/List",
    "java/util/Map",
    "java/util/Map$Entry",
    "java/util/Objects",
    "java/util/Optional",
    "java/util/Set",
    "java/util/function/BiFunction",
    "java/util/function/Consumer",
    "java/util/function/Function",
    "java/util/function/Predicate",
    "java/util/function/Supplier" ]

/-- The search path that knows the common classes of the platform. -/
def library : SearchPath :=
  libraryClasses.foldl (fun path name => path.addEntry (name ++ ".class")) empty

end JvmWeave.SearchPath
