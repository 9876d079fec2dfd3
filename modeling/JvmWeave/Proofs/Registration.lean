import Mathlib.Data.List.Sort
import JvmWeave.ClassPath.SearchPath
import JvmWeave.Proofs.Pieces

/-!
# Histories of a search path

A search path is filled by calls, each of which declares the class of one compiled file or the types
in one source file.  It knows what has been declared, and of each class the file that declared it
last.  The types of a source are declared under the names of their compiled files, unless the mark
`$` stands in the name of their package, where it is taken for that of a nested class.
-/

set_option autoImplicit false

namespace JvmWeave

open Text

/-! ## Names -/

def joined (mark : Char) (parts : List String) : String :=
  String.ofList (join mark (parts.map String.toList))

theorem toList_joined (mark : Char) (parts : List String) :
    (joined mark parts).toList = join mark (parts.map String.toList) :=
  String.toList_ofList

theorem mem_joined_of_mem {mark c : Char} {part : String} {parts : List String} (h : part ∈ parts)
    (hc : c ∈ part.toList) : c ∈ (joined mark parts).toList := by
  rw [toList_joined]
  exact mem_join_of_mem (List.mem_map_of_mem h) hc

/-- The name of a class in a package, with dots throughout.  The default package has no name. -/
def canonical (package : String) (names : List String) : String :=
  joined '.' (if package = "" then names else package :: names)

/-- A name that can stand between the separators of an entry. -/
def IsSegment (segment : String) : Prop :=
  segment ≠ "" ∧ ∀ c ∈ ['.', '/', '\\'], c ∉ segment.toList

instance (segment : String) : Decidable (IsSegment segment) :=
  decidable_of_iff
    (segment ≠ "" ∧ (['.', '/', '\\'].all fun c => decide (c ∉ segment.toList)) = true)
    (and_congr_right' (by simp only [List.all_eq_true, decide_eq_true_eq]))

theorem IsSegment.toList {segment : String} (h : IsSegment segment) :
    segment.toList ≠ [] ∧ ∀ c ∈ ['.', '/', '\\'], c ∉ segment.toList :=
  ⟨fun he => h.1 (String.toList_eq_nil_iff.mp he), h.2⟩

theorem joined_ne_empty {mark : Char} {parts : List String} (hne : parts ≠ [])
    (h : ∀ part ∈ parts, IsSegment part) : joined mark parts ≠ "" := by
  intro he
  have hnil : join mark (parts.map String.toList) = [] := by
    rw [← toList_joined, he]
    rfl
  refine join_ne_nil (by simpa using hne) ?_ hnil
  intro part hp
  obtain ⟨segment, hs, rfl⟩ := List.mem_map.mp hp
  exact (h segment hs).toList.1

/-- Packages around a package are parts of the name like all others. -/
theorem canonical_joined {packages names : List String} (hn : names ≠ [])
    (h : ∀ package ∈ packages, IsSegment package) :
    canonical (joined '.' packages) names = joined '.' (packages ++ names) := by
  unfold canonical
  by_cases hp : packages = []
  · subst hp
    rfl
  · rw [if_neg (joined_ne_empty hp h)]
    unfold joined
    rw [List.map_cons, String.toList_ofList, List.map_append, join_cons (by simpa using hn),
      join_append (by simpa using hp) (by simpa using hn)]

/-! ## Types in source -/

namespace SourceType

mutual

/-- The names on the way to the type and to each type nested in it, the outermost first. -/
def paths : SourceType → List (List String)
  | .mk name nested => [name] :: (pathsOfAll nested).map (name :: ·)

def pathsOfAll : List SourceType → List (List String)
  | [] => []
  | type :: types => paths type ++ pathsOfAll types

end

theorem ne_nil_of_mem_paths {type : SourceType} {names : List String} (h : names ∈ type.paths) :
    names ≠ [] := by
  obtain ⟨name, nested⟩ := type
  rw [paths] at h
  rcases List.mem_cons.mp h with rfl | h
  · simp
  · obtain ⟨inner, -, rfl⟩ := List.mem_map.mp h
    simp

theorem ne_nil_of_mem_pathsOfAll {types : List SourceType} {names : List String}
    (h : names ∈ pathsOfAll types) : names ≠ [] := by
  induction types with
  | nil => cases h
  | cons type types ih =>
    rw [pathsOfAll] at h
    exact (List.mem_append.mp h).elim ne_nil_of_mem_paths ih

end SourceType

namespace SearchPath

mutual

/-- What is written in front of a type goes in front of the types nested in it as well. -/
theorem declaredNames_eq (outer : String) (type : SourceType) :
    declaredNames outer type = type.paths.map fun names => outer ++ joined '.' names := by
  match type with
  | .mk name nested =>
    have hone : joined '.' [name] = name := String.ofList_toList
    -- the name and its dot are what stands in front of the nested types
    rw [declaredNames, SourceType.paths, List.map_cons, hone, declaredNamesOfAll_eq, List.map_map]
    congr 1
    refine List.map_congr_left fun names hn => ?_
    have hne := SourceType.ne_nil_of_mem_pathsOfAll hn
    have hcons : joined '.' (name :: names) = name ++ "." ++ joined '.' names := by
      unfold joined
      rw [List.map_cons, join_cons (by simpa using hne)]
      apply String.toList_inj.mp
      simp
    rw [Function.comp_apply, hcons]
    simp only [String.append_assoc]

theorem declaredNamesOfAll_eq (outer : String) (types : List SourceType) :
    declaredNamesOfAll outer types =
      (SourceType.pathsOfAll types).map fun names => outer ++ joined '.' names := by
  match types with
  | [] => rfl
  | type :: types =>
    rw [declaredNamesOfAll, SourceType.pathsOfAll, List.map_append, declaredNames_eq,
      declaredNamesOfAll_eq]

end

/-! ## One call -/

/-- Registers classes one after the other, all with the same entry. -/
def registerAll (path : SearchPath) (entry : String) (names : List String) : SearchPath :=
  names.foldl (fun p name => p.register entry name) path

theorem entryOf?_registerAll (path : SearchPath) (entry className : String) (names : List String) :
    (path.registerAll entry names).entryOf? className =
      if className ∈ names then some entry else path.entryOf? className := by
  unfold registerAll
  induction names generalizing path with
  | nil => rfl
  | cons name names ih =>
    have hname : (path.register entry name).entryOf? className =
        if name = className then some entry else path.entryOf? className :=
      KeyedList.get?_insert _ _ _ _
    rw [List.foldl_cons, ih, hname]
    by_cases hm : className ∈ names
    · simp [hm]
    · simp [hm, eq_comm]

end SearchPath

/-- A call that adds to a search path. -/
inductive Registration where
  | entry (file : String)
  | source (file package : String) (types : List SourceType)

namespace Registration

def file : Registration → String
  | entry file => file
  | source file _ _ => file

/-- The call declares the class of this canonical name. -/
def Declares : Registration → String → Prop
  | entry file, className =>
    (".class".toList <:+ file.toList ∨ ".java".toList <:+ file.toList) ∧
      className = SearchPath.canonicalName file
  | source _ package types, className =>
    ∃ names ∈ SourceType.pathsOfAll types, className = canonical package names

/-- What the call does to a search path. -/
def apply (path : SearchPath) : Registration → SearchPath
  | entry file => path.addEntry file
  | source file package types => path.addSource file package types

/-- What calls do one after the other. -/
def run (path : SearchPath) (calls : List Registration) : SearchPath :=
  calls.foldl apply path

end Registration

namespace SearchPath

theorem isClassEntry_iff {file : String} : ClassPath.isClassEntry file = true ↔
    ".class".toList <:+ file.toList ∨ ".java".toList <:+ file.toList := by
  unfold ClassPath.isClassEntry
  rw [Bool.or_eq_true, isSome_stripSuffix?_iff, isSome_stripSuffix?_iff]

theorem outer_append_joined {package : String} {names : List String} (hne : names ≠ []) :
    (if package = "" then "" else package ++ ".") ++ joined '.' names = canonical package names := by
  unfold canonical
  split
  · exact String.empty_append
  · unfold joined
    rw [List.map_cons, join_cons (by simpa using hne)]
    apply String.toList_inj.mp
    simp

theorem addEntry_of_no_class (path : SearchPath) {file : String}
    (h : ¬(".class".toList <:+ file.toList ∨ ".java".toList <:+ file.toList)) :
    path.addEntry file = path := by
  unfold addEntry
  rw [if_neg (mt isClassEntry_iff.mp h)]

theorem mem_classNames_iff {path : SearchPath} {className : String} :
    className ∈ path.classNames ↔ path.hasClass className = true :=
  KeyedList.isSome_get?_iff.symm

theorem classNames_increasing (path : SearchPath) : path.classNames.Pairwise (· < ·) :=
  List.pairwise_map.mpr path.ordered

/-- Search paths that know the same classes list them in the same way. -/
theorem classNames_congr {path path' : SearchPath}
    (h : ∀ className, path.hasClass className = true ↔ path'.hasClass className = true) :
    path.classNames = path'.classNames := by
  refine path.classNames_increasing.eq_of_mem_iff path'.classNames_increasing fun className => ?_
  rw [mem_classNames_iff, mem_classNames_iff, h]

end SearchPath

namespace Registration

theorem declares_classFile_iff {file className : String} (h : ".class".toList <:+ file.toList) :
    (entry file).Declares className ↔ className = SearchPath.canonicalName file :=
  and_iff_right (.inl h)

/-- A call registers what it declares. -/
theorem exists_names (call : Registration) :
    ∃ names, (∀ path, apply path call = path.registerAll call.file names) ∧
      ∀ className, className ∈ names ↔ call.Declares className := by
  cases call with
  | entry file =>
    by_cases hfile : ".class".toList <:+ file.toList ∨ ".java".toList <:+ file.toList
    · refine ⟨[SearchPath.canonicalName file], fun path => ?_, fun className => ?_⟩
      · exact if_pos (SearchPath.isClassEntry_iff.mpr hfile)
      · rw [List.mem_singleton]
        exact (and_iff_right hfile).symm
    · refine ⟨[], fun path => path.addEntry_of_no_class hfile, fun className => ?_⟩
      exact iff_of_false List.not_mem_nil fun h => hfile h.1
  | source file package types =>
    -- the names are those of the recursion, which has to be compared with the paths
    refine ⟨_, fun path => rfl, fun className => ?_⟩
    rw [SearchPath.declaredNamesOfAll_eq, List.mem_map]
    refine exists_congr fun names => and_congr_right fun hn => ?_
    rw [SearchPath.outer_append_joined (SourceType.ne_nil_of_mem_pathsOfAll hn), eq_comm]

theorem entryOf?_apply {path : SearchPath} {call : Registration} {className : String} :
    (call.Declares className → (apply path call).entryOf? className = some call.file) ∧
      (¬call.Declares className →
        (apply path call).entryOf? className = path.entryOf? className) := by
  obtain ⟨names, happly, hnames⟩ := call.exists_names
  rw [happly, SearchPath.entryOf?_registerAll, ← hnames]
  exact ⟨fun h => if_pos h, fun h => if_neg h⟩

/-! ## All calls -/

theorem run_append (path : SearchPath) (before after : List Registration) :
    run path (before ++ after) = run (run path before) after :=
  List.foldl_append

/-- Classes that are not declared stay as they are. -/
theorem entryOf?_run_of_not_declares {path : SearchPath} {calls : List Registration}
    {className : String} (h : ∀ call ∈ calls, ¬call.Declares className) :
    (run path calls).entryOf? className = path.entryOf? className := by
  induction calls generalizing path with
  | nil => rfl
  | cons call calls ih =>
    obtain ⟨hcall, hcalls⟩ := List.forall_mem_cons.mp h
    exact (ih hcalls).trans (entryOf?_apply.2 hcall)

/-- The last call that declares a class decides. -/
theorem entryOf?_run_of_last {path : SearchPath} {before after : List Registration}
    {call : Registration} {className : String} (h : call.Declares className)
    (hafter : ∀ later ∈ after, ¬later.Declares className) :
    (run path (before ++ call :: after)).entryOf? className = some call.file := by
  rw [run_append]
  exact (entryOf?_run_of_not_declares hafter).trans (entryOf?_apply.1 h)

theorem hasClass_run_iff {path : SearchPath} {calls : List Registration} {className : String} :
    (run path calls).hasClass className = true ↔
      (∃ call ∈ calls, call.Declares className) ∨ path.hasClass className = true := by
  induction calls generalizing path with
  | nil => simp [run]
  | cons call calls ih =>
    have hcall : (apply path call).hasClass className = true ↔
        call.Declares className ∨ path.hasClass className = true := by
      unfold SearchPath.hasClass
      by_cases h : call.Declares className
      · simp [entryOf?_apply.1 h, h]
      · simp [entryOf?_apply.2 h, h]
    have hstep : run path (call :: calls) = run (apply path call) calls := rfl
    rw [hstep, ih, hcall]
    simp only [List.mem_cons, exists_eq_or_imp]
    exact or_left_comm.trans or_assoc.symm

end Registration

/-! ## Compiled files -/

/-- The path of a compiled class names it, with the slashes as dots. -/
theorem ClassPath.classNameOfEntry_join {parts : List (List Char)} (hne : parts ≠ [])
    (h : ∀ part ∈ parts, part ≠ [] ∧ ∀ c ∈ ['.', '/', '\\'], c ∉ part) :
    classNameOfEntry (String.ofList (join '/' parts ++ ".class".toList)) =
      String.ofList (join '.' parts) := by
  have hname : ∀ c ∈ ['.', '\\'], c ∉ join '/' parts := by
    have hsub : ['.', '\\'] ⊆ ['.', '/', '\\'] := by decide
    intro c hm hj
    rcases mem_join hj with rfl | ⟨part, hp, hc⟩
    · exact absurd hm (by decide)
    · exact (h part hp).2 c (hsub hm) hc
  have htext : (String.ofList (join '/' parts ++ ".class".toList)).toList =
      join '/' parts ++ ".class".toList := String.toList_ofList
  have hclass : withoutSuffix ".class".toList (join '/' parts ++ ".class".toList) =
      join '/' parts := by
    unfold withoutSuffix
    rw [stripSuffix?_eq_some_iff.mpr rfl, Option.getD_some]
  have hjava : withoutSuffix ".java".toList (join '/' parts) = join '/' parts := by
    unfold withoutSuffix
    rw [stripSuffix?_eq_none (c := '.') (by decide) (hname '.' (by decide)), Option.getD_none]
  have hback : replace '\\' '.' (join '/' parts) = join '/' parts :=
    replace_of_not_mem (hname '\\' (by decide))
  have hslash : replace '/' '.' (join '/' parts) = join '.' parts :=
    replace_join_of_not_mem fun part hp => (h part hp).2 '/' (by decide)
  have hstart : stripPrefix? ['.'] (join '.' parts) = none :=
    stripPrefix?_join_eq_none hne fun part hp => ⟨(h part hp).1, (h part hp).2 '.' (by decide)⟩
  unfold classNameOfEntry
  dsimp only
  rw [htext, hclass, hjava, hback, hslash, hstart, Option.getD_none]

/-- All marks `$` become dots as well: those before nested classes, and those in the names of
packages. -/
theorem SearchPath.canonicalName_compiled {package classes : List (List Char)} (hne : classes ≠ [])
    (h : ∀ part ∈ package ++ classes, part ≠ [] ∧ ∀ c ∈ ['.', '/', '\\'], c ∉ part)
    (hc : ∀ part ∈ classes, '$' ∉ part) :
    canonicalName (String.ofList (join '/' (package ++ [join '$' classes]) ++ ".class".toList)) =
      String.ofList (join '.' (package.map (replace '$' '.') ++ classes)) := by
  have hparts : ∀ part ∈ package ++ [join '$' classes],
      part ≠ [] ∧ ∀ c ∈ ['.', '/', '\\'], c ∉ part := by
    intro part hp
    rcases List.mem_append.mp hp with hp | hp
    · exact h part (List.mem_append_left _ hp)
    · rw [List.mem_singleton.mp hp]
      refine ⟨join_ne_nil hne fun p hp => (h p (List.mem_append_right _ hp)).1, ?_⟩
      intro c hm hj
      rcases mem_join hj with rfl | ⟨p, hp, hcp⟩
      · exact absurd hm (by decide)
      · exact (h p (List.mem_append_right _ hp)).2 c hm hcp
  unfold canonicalName
  rw [ClassPath.classNameOfEntry_join (by simp) hparts, String.toList_ofList, replace_join,
    List.map_append, List.map_singleton, replace_join_of_not_mem hc, if_pos rfl,
    if_neg (by decide), join_append_join _ hne]

/-- The file that a class is compiled to, in the directory of its package. -/
def compiledFile (packages names : List String) : String :=
  joined '/' (packages ++ [joined '$' names]) ++ ".class"

namespace SearchPath

/-- The mark of nested classes is in no name that a file declares. -/
theorem not_mem_canonicalName (file : String) : '$' ∉ (canonicalName file).toList := by
  unfold canonicalName
  rw [String.toList_ofList]
  intro hm
  obtain ⟨c, -, hc⟩ := List.mem_map.mp hm
  split at hc
  · exact absurd hc (by decide)
  · next hne => exact hne hc

theorem canonicalName_compiledFile_eq {packages names : List String} (hne : names ≠ [])
    (hp : ∀ package ∈ packages, IsSegment package)
    (hn : ∀ name ∈ names, IsSegment name ∧ '$' ∉ name.toList) :
    canonicalName (compiledFile packages names) = String.ofList
      (join '.' ((packages.map String.toList).map (replace '$' '.') ++ names.map String.toList)) := by
  have hparts : ∀ part ∈ packages.map String.toList ++ names.map String.toList,
      part ≠ [] ∧ ∀ c ∈ ['.', '/', '\\'], c ∉ part := by
    rw [← List.map_append]
    intro part hpart
    obtain ⟨segment, hs, rfl⟩ := List.mem_map.mp hpart
    exact (List.mem_append.mp hs).elim (fun h => (hp segment h).toList)
      fun h => (hn segment h).1.toList
  have hclasses : ∀ part ∈ names.map String.toList, '$' ∉ part := by
    intro part hpart
    obtain ⟨name, hm, rfl⟩ := List.mem_map.mp hpart
    exact (hn name hm).2
  have htext : compiledFile packages names = String.ofList (join '/'
      (packages.map String.toList ++ [join '$' (names.map String.toList)]) ++ ".class".toList) := by
    apply String.toList_inj.mp
    unfold compiledFile
    rw [String.toList_append, toList_joined, List.map_append, List.map_singleton, toList_joined]
    exact String.toList_ofList.symm
  rw [htext, canonicalName_compiled (by simpa using hne) hparts hclasses]

theorem canonicalName_compiledFile {packages names : List String} (hne : names ≠ [])
    (hp : ∀ package ∈ packages, IsSegment package ∧ '$' ∉ package.toList)
    (hn : ∀ name ∈ names, IsSegment name ∧ '$' ∉ name.toList) :
    canonicalName (compiledFile packages names) = canonical (joined '.' packages) names := by
  have hkept : (packages.map String.toList).map (replace '$' '.') = packages.map String.toList := by
    rw [List.map_map]
    exact List.map_congr_left fun package hm => replace_of_not_mem (hp package hm).2
  rw [canonicalName_compiledFile_eq hne (fun package hm => (hp package hm).1) hn, hkept,
    ← List.map_append, canonical_joined hne fun package hm => (hp package hm).1]
  rfl

theorem declares_compiledFile_iff {packages names : List String} {className : String} :
    (Registration.entry (compiledFile packages names)).Declares className ↔
      className = canonicalName (compiledFile packages names) := by
  apply Registration.declares_classFile_iff
  unfold compiledFile
  rw [String.toList_append]
  exact List.suffix_append _ _

/-- The compiled files of types declare, without marks `$` in names, what their source declares. -/
theorem declares_compiled_iff {packages : List String} {types : List SourceType}
    (hp : ∀ package ∈ packages, IsSegment package ∧ '$' ∉ package.toList)
    (ht : ∀ names ∈ SourceType.pathsOfAll types, ∀ name ∈ names,
      IsSegment name ∧ '$' ∉ name.toList) (file className : String) :
    (∃ call ∈ ((SourceType.pathsOfAll types).map (compiledFile packages)).map Registration.entry,
        call.Declares className) ↔
      (Registration.source file (joined '.' packages) types).Declares className := by
  simp only [List.map_map, List.mem_map, Function.comp_apply, exists_exists_and_eq_and,
    declares_compiledFile_iff]
  refine exists_congr fun names => and_congr_right fun hn => ?_
  rw [canonicalName_compiledFile (SourceType.ne_nil_of_mem_pathsOfAll hn) hp (ht names hn)]

theorem foldl_addEntry_eq_run (path : SearchPath) (files : List String) :
    files.foldl addEntry path = Registration.run path (files.map .entry) := by
  unfold Registration.run
  rw [List.foldl_map]
  rfl

theorem addSource_eq_run (path : SearchPath) (file package : String) (types : List SourceType) :
    path.addSource file package types = Registration.run path [.source file package types] :=
  rfl

theorem hasClass_empty (className : String) : empty.hasClass className = false :=
  rfl

/-- Classes in a package with the mark `$` have another name in their source. -/
theorem not_mem_package_of_compiled {packages : List String} {types : List SourceType}
    (hp : ∀ package ∈ packages, IsSegment package) {file : String}
    (h : (empty.addSource file (joined '.' packages) types).classNames =
      (((SourceType.pathsOfAll types).map (compiledFile packages)).foldl addEntry empty).classNames) :
    types = [] ∨ ∀ package ∈ packages, '$' ∉ package.toList := by
  refine or_iff_not_imp_left.mpr fun hne package hm hmark => ?_
  obtain ⟨⟨name, nested⟩, types, rfl⟩ := List.exists_cons_of_ne_nil hne
  -- the name of the first type, as its source declares it
  have hname : joined '.' (packages ++ [name]) ∈
      (empty.addSource file (joined '.' packages) (⟨name, nested⟩ :: types)).classNames := by
    rw [addSource_eq_run, mem_classNames_iff, Registration.hasClass_run_iff]
    refine .inl ⟨_, List.mem_singleton_self _, [name], ?_, ?_⟩
    · simp [SourceType.pathsOfAll, SourceType.paths]
    · rw [canonical_joined (by simp) hp]
  rw [h, foldl_addEntry_eq_run, mem_classNames_iff, Registration.hasClass_run_iff,
    hasClass_empty] at hname
  obtain ⟨call, hcall, hdeclares⟩ := hname.resolve_right Bool.false_ne_true
  obtain ⟨compiled, -, rfl⟩ := List.mem_map.mp hcall
  have hcanonical : joined '.' (packages ++ [name]) = canonicalName compiled := hdeclares.2
  refine not_mem_canonicalName compiled ?_
  rw [← hcanonical]
  exact mem_joined_of_mem (List.mem_append_left _ hm) hmark

/-- A search path knows what was declared, under the entry of the last declaration, and the types of
a source have the names of their compiled files unless the mark `$` is in the name of a package. -/
theorem last_declaration_and_compiled_iff {packages : List String} {types : List SourceType}
    (hp : ∀ package ∈ packages, IsSegment package)
    (ht : ∀ names ∈ SourceType.pathsOfAll types, ∀ name ∈ names,
      IsSegment name ∧ '$' ∉ name.toList) :
    (∀ calls : List Registration,
      (∀ className, (Registration.run empty calls).hasClass className = true ↔
        ∃ call ∈ calls, call.Declares className) ∧
      (∀ before call after className, calls = before ++ call :: after → call.Declares className →
        (∀ later ∈ after, ¬later.Declares className) →
        (Registration.run empty calls).entryOf? className = some call.file) ∧
      (Registration.run empty calls).classNames.Pairwise (· < ·) ∧
      (∀ className, className ∈ (Registration.run empty calls).classNames ↔
        ∃ call ∈ calls, call.Declares className) ∧
      (Registration.run empty calls).size =
        (Registration.run empty calls).classNames.length) ∧
    (∀ (path : SearchPath) (file : String),
      ¬(".class".toList <:+ file.toList ∨ ".java".toList <:+ file.toList) →
      path.addEntry file = path) ∧
    ((∀ (path : SearchPath) (file : String),
        (path.addSource file (joined '.' packages) types).classNames =
          (((SourceType.pathsOfAll types).map (compiledFile packages)).foldl addEntry
            path).classNames) ↔
      types = [] ∨ ∀ package ∈ packages, '$' ∉ package.toList) := by
  refine ⟨fun calls => ?_, fun path file h => path.addEntry_of_no_class h, fun h => ?_, ?_⟩
  · have hknown : ∀ className, (Registration.run empty calls).hasClass className = true ↔
        ∃ call ∈ calls, call.Declares className := by
      intro className
      rw [Registration.hasClass_run_iff, hasClass_empty, or_iff_left Bool.false_ne_true]
    refine ⟨hknown, ?_, classNames_increasing _, fun className => ?_, (List.length_map _).symm⟩
    · rintro before call after className rfl hcall hafter
      exact Registration.entryOf?_run_of_last hcall hafter
    · rw [mem_classNames_iff, hknown]
  · exact not_mem_package_of_compiled hp (h empty "")
  · rintro (rfl | hclean) path file
    · rfl
    · -- both declare the same names on top of what the path knows
      refine classNames_congr fun className => ?_
      rw [addSource_eq_run, foldl_addEntry_eq_run, Registration.hasClass_run_iff,
        Registration.hasClass_run_iff,
        declares_compiled_iff (fun package hm => ⟨hp package hm, hclean package hm⟩) ht file]
      simp

/-- A class with another one in it. -/
def pointWithInner : SourceType :=
  .mk "Point" [.mk "Inner" []]

theorem last_declaration_and_compiled_iff_point :
    (Registration.run empty [.entry "me/alec/Point$Inner.class", .entry "META-INF/MANIFEST.MF",
        .source "src/Point.java" "me.alec" [pointWithInner]]).entryOf? "me.alec.Point.Inner" =
      some "src/Point.java" ∧
    (empty.addSource "src/Point.java" "me.alec" [pointWithInner]).classNames =
      (["me/alec/Point.class", "me/alec/Point$Inner.class"].foldl addEntry empty).classNames := by
  have hp : ∀ package ∈ ["me", "alec"], IsSegment package := by decide
  have ht : ∀ names ∈ SourceType.pathsOfAll [pointWithInner], ∀ name ∈ names,
      IsSegment name ∧ '$' ∉ name.toList := by decide
  obtain ⟨hcalls, -, hcompiled⟩ := last_declaration_and_compiled_iff hp ht
  refine ⟨?_, ?_⟩
  · refine (hcalls _).2.1 [_, _] _ [] _ rfl ⟨["Point", "Inner"], by decide, by decide⟩ ?_
    exact List.forall_mem_nil _
  · exact (hcompiled.mpr (.inr (by decide))) empty "src/Point.java"

/-- A package can have the mark `$` in its name.  The compiled file of a class in it declares another
class than its source. -/
theorem compiled_ne_source_dollar :
    IsSegment "a$b" ∧ IsSegment "Outer" ∧ '$' ∉ "Outer".toList ∧
      (empty.addSource "a$b/Outer.java" (joined '.' ["a$b"]) [.mk "Outer" []]).classNames =
        ["a$b.Outer"] ∧
      (((SourceType.pathsOfAll [.mk "Outer" []]).map (compiledFile ["a$b"])).foldl addEntry
        empty).classNames = ["a.b.Outer"] ∧
      ["a$b.Outer"] ≠ ["a.b.Outer"] := by
  decide

end SearchPath

end JvmWeave
