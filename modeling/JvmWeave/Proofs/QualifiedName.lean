import JvmWeave.Proofs.PackageCut
import JvmWeave.Proofs.Registration

/-!
# Fully qualified names

A class that is not in the default package can be named by its package and its own name with dots
throughout.  Where no import and no type parameter has a say, three rules are left, and each builds
the binary name in its own way.  This file says exactly when the class is found under that name.

What the archive has is a `StoredClass`: packages, an outer class and classes nested in it, each an
identifier.  From these come three texts, and the whole difficulty is that they are not the same.

* `binaryName`, with `/` behind packages and `$` between classes.  It is right by definition.
* `dottedName`, with dots throughout.  It is what a source writes.
* `registeredName`, which is what the search path knows the class by.  It is read off the entry by
  turning every `$` into a dot, and an identifier may have a `$` in it.  In the name of a class that
  makes no difference, as nothing tells it from the mark of a nested class (so `ClassIdentifier` has
  none).  In the name of a package it does: the entry `a$b/O.class` is registered as `a.b.O`, and no
  class of the package `a$b` is ever known by its dotted name.

A class is `Marked` if its package has such a name.  For one that is not, the walk down the class
path stops at its outermost class, and the qualified name is read right.  For one that is, the walk
finds nothing and the name is guessed, so that it is read right if it is `Capitalized` as the guess
expects.  `Scope.binaryNameOf_dottedName_iff` says both at once, and both need that the walk is not
stopped too early, by a class that is called like a package of the name (`Unshadowed`).

The rule for classes of the scope's own package comes before that one and is of no help.  In the
default package it takes every registered name for that of a class of the default package with
classes nested in it.  So from there it is the marked classes alone that can be named at all.
-/

set_option autoImplicit false

namespace JvmWeave

open Text

/-- A part of a name in source.  Beyond what an entry asks of it, no character in it ends a name. -/
structure Identifier where
  text : String
  segment : IsSegment text
  readable : ∀ c ∈ text.toList, isBlank c = false ∧ c ∉ [';', '[', '<', '>']

/-- The part between two marks `$` of the name of a class. -/
structure ClassIdentifier extends Identifier where
  unmarked : '$' ∉ text.toList

theorem Identifier.isPart (i : Identifier) : BinaryName.IsPart i.text.toList := by
  refine ⟨i.segment.toList.1, fun c hc hm => ?_⟩
  by_cases hsep : c ∈ ['.', '/', '\\']
  · exact i.segment.2 c hsep hm
  · apply (i.readable c hm).2
    simp_all

/-- A class as an archive stores it. -/
structure StoredClass where
  /-- The packages around it, the outermost first. -/
  package : List Identifier
  outer : ClassIdentifier
  /-- The classes from the outer one inwards, ending with the class itself. -/
  nested : List ClassIdentifier

namespace StoredClass

def packageParts (c : StoredClass) : List (List Char) :=
  c.package.map fun i => i.text.toList

/-- The names of the classes, the outermost first. -/
def classParts (c : StoredClass) : List (List Char) :=
  (c.outer :: c.nested).map fun i => i.text.toList

/-- How the name has to be cut. -/
def reading (c : StoredClass) : Reading :=
  ⟨c.packageParts, c.classParts⟩

def binaryName (c : StoredClass) : List Char :=
  join '/' (c.packageParts ++ [join '$' c.classParts])

def dottedName (c : StoredClass) : List Char :=
  join '.' (c.packageParts ++ c.classParts)

def registeredName (c : StoredClass) : List Char :=
  join '.' (c.packageParts.map (replace '$' '.') ++ c.classParts)

/-- The entry of the archive that holds the class. -/
def entry (c : StoredClass) : String :=
  compiledFile (c.package.map fun i => i.text) ((c.outer :: c.nested).map fun i => i.text)

/-- The class that it is nested in, or itself if it is in none. -/
def outermost (c : StoredClass) : StoredClass :=
  { c with nested := [] }

/-- The search path over the entries of these classes. -/
def searchPath (classes : List StoredClass) : SearchPath :=
  (classes.map entry).foldl SearchPath.addEntry .empty

/-! ## Parts of names -/

theorem packageParts_ne_nil {c : StoredClass} (hp : c.package ≠ []) : c.packageParts ≠ [] := by
  simpa [packageParts] using hp

theorem classParts_ne_nil (c : StoredClass) : c.classParts ≠ [] := by
  simp [classParts]

theorem mem_parts {c : StoredClass} {part : List Char} (h : part ∈ c.packageParts ++ c.classParts) :
    ∃ i : Identifier, i.text.toList = part := by
  rcases List.mem_append.mp h with h | h
  · obtain ⟨i, -, hi⟩ := List.mem_map.mp h
    exact ⟨i, hi⟩
  · obtain ⟨i, -, hi⟩ := List.mem_map.mp h
    exact ⟨i.toIdentifier, hi⟩

theorem isPart_of_mem {c : StoredClass} {part : List Char}
    (h : part ∈ c.packageParts ++ c.classParts) : BinaryName.IsPart part := by
  obtain ⟨i, rfl⟩ := mem_parts h
  exact i.isPart

theorem classPart_unmarked {c : StoredClass} {part : List Char} (h : part ∈ c.classParts) :
    '$' ∉ part := by
  obtain ⟨i, -, rfl⟩ := List.mem_map.mp h
  exact i.unmarked

theorem slash_not_mem_part {c : StoredClass} {part : List Char}
    (h : part ∈ c.reading.package ++ c.reading.classes) : '/' ∉ part :=
  (isPart_of_mem h).2 '/' (by decide)

/-- The name of the class, which is well formed. -/
def binary (c : StoredClass) : BinaryName :=
  ⟨String.ofList c.binaryName, by
    rw [String.toList_ofList]
    apply Reading.flaw?_text_eq_none_iff (r := c.reading).mpr
    exact Reading.sound_of_isPart c.classParts_ne_nil fun _ => isPart_of_mem⟩

/-- The name of a class of the default package that has the same dotted name. -/
def nestedBinary (c : StoredClass) : BinaryName :=
  ⟨String.ofList (join '$' (c.packageParts ++ c.classParts)), by
    rw [String.toList_ofList]
    apply Reading.flaw?_text_eq_none_iff (r := ⟨[], c.packageParts ++ c.classParts⟩).mpr
    apply Reading.sound_of_isPart
    · simp [classParts]
    · exact fun _ => isPart_of_mem⟩

/-- A package tells the two apart. -/
theorem nestedBinary_ne {c : StoredClass} (hp : c.package ≠ []) : c.nestedBinary ≠ c.binary := by
  intro he
  have htext : c.reading.text = (⟨[], c.packageParts ++ c.classParts⟩ : Reading).text :=
    String.ofList_injective (congrArg BinaryName.text he).symm
  have hreading : c.reading = ⟨[], c.packageParts ++ c.classParts⟩ :=
    Reading.eq_of_text_eq (fun _ => slash_not_mem_part) rfl htext
  exact packageParts_ne_nil hp (congrArg Reading.package hreading)

theorem dot_mem_dottedName {c : StoredClass} (hp : c.package ≠ []) : '.' ∈ c.dottedName := by
  obtain ⟨i, is, hi⟩ := List.exists_cons_of_ne_nil hp
  unfold dottedName packageParts
  rw [hi, List.map_cons, List.cons_append]
  exact mark_mem_join (by simp [classParts])

/-- Parts with dots between them are read as a name, unless they are a keyword. -/
theorem plainName_join {parts : List (List Char)} (hne : parts ≠ [])
    (h : ∀ p ∈ parts, ∃ i : Identifier, i.text.toList = p)
    (hk : Primitive.ofKeyword? (String.ofList (join '.' parts)) = none) :
    PlainName (join '.' parts) := by
  have hmem : ∀ ch ∈ join '.' parts, isBlank ch = false ∧ ch ∉ [';', '[', '<', '>'] := by
    intro ch hch
    rcases mem_join hch with rfl | ⟨p, hp, hm⟩
    · decide
    · obtain ⟨i, rfl⟩ := h p hp
      exact i.readable ch hm
  constructor
  · refine join_ne_nil hne fun p hp => ?_
    obtain ⟨i, rfl⟩ := h p hp
    exact i.isPart.1
  · exact fun ch hch => (hmem ch hch).1
  · exact fun hm => (hmem '<' hm).2 (by decide)
  · exact fun hm => (hmem '>' hm).2 (by decide)
  · exact stripSuffix?_eq_none (c := '[') (by decide) fun hm => (hmem '[' hm).2 (by decide)
  · exact hk

theorem plainName_dottedName {c : StoredClass} (hp : c.package ≠ []) : PlainName c.dottedName :=
  plainName_join (by simp [classParts]) (fun _ h => mem_parts h)
    (ofKeyword?_of_dot (dot_mem_dottedName hp))

/-! ## What is registered -/

/-- Slashes become dots, and so do all marks `$`. -/
theorem canonicalName_entry (c : StoredClass) :
    SearchPath.canonicalName c.entry = String.ofList c.registeredName := by
  unfold entry registeredName packageParts classParts
  rw [SearchPath.canonicalName_compiledFile_eq (by simp)]
  · simp only [List.map_map, Function.comp_def]
  · intro package hm
    obtain ⟨i, -, rfl⟩ := List.mem_map.mp hm
    exact i.segment
  · intro name hm
    obtain ⟨i, -, rfl⟩ := List.mem_map.mp hm
    exact ⟨i.segment, i.unmarked⟩

/-- The search path knows the registered names of the stored classes and no others. -/
theorem hasClass_searchPath {classes : List StoredClass} {name : String} :
    (searchPath classes).hasClass name = true ↔
      ∃ c ∈ classes, String.ofList c.registeredName = name := by
  have hdeclares : ∀ c : StoredClass, (Registration.entry c.entry).Declares name ↔
      String.ofList c.registeredName = name := by
    intro c
    rw [← canonicalName_entry, eq_comm]
    exact SearchPath.declares_compiledFile_iff
  unfold searchPath
  rw [SearchPath.foldl_addEntry_eq_run, Registration.hasClass_run_iff, SearchPath.hasClass_empty,
    or_iff_left Bool.false_ne_true]
  simp only [List.map_map, List.mem_map, Function.comp_apply, exists_exists_and_eq_and, hdeclares]

/-- A package around the class has the mark of nested classes in its name. -/
def Marked (c : StoredClass) : Prop :=
  ∃ package ∈ c.packageParts, '$' ∈ package

instance (c : StoredClass) : Decidable c.Marked :=
  inferInstanceAs (Decidable (∃ package ∈ c.packageParts, '$' ∈ package))

/-- The mark in its package is in the dotted name. -/
theorem Marked.mem_dottedName {c : StoredClass} (hm : c.Marked) : '$' ∈ c.dottedName := by
  obtain ⟨package, hpackage, hmark⟩ := hm
  exact mem_join_of_mem (List.mem_append_left _ hpackage) hmark

theorem registeredName_of_not_marked {c : StoredClass} (h : ¬c.Marked) :
    c.registeredName = c.dottedName := by
  have hkept : c.packageParts.map (replace '$' '.') = c.packageParts := by
    rw [List.map_congr_left fun package hm => replace_of_not_mem fun hmark => h ⟨package, hm, hmark⟩]
    exact List.map_id' _
  unfold registeredName
  rw [hkept]
  rfl

/-- What is registered has dots only. -/
theorem clean_of_hasClass {classes : List StoredClass} {name : List Char}
    (h : (searchPath classes).hasClass (String.ofList name) = true) : '$' ∉ name ∧ '/' ∉ name := by
  obtain ⟨c, -, hc⟩ := hasClass_searchPath.mp h
  have hname : c.registeredName = name := String.ofList_injective hc
  constructor
  · rw [← hname, ← String.toList_ofList (l := c.registeredName), ← canonicalName_entry]
    exact SearchPath.not_mem_canonicalName _
  · rw [← hname]
    intro hm
    rcases mem_join hm with he | ⟨part, hpart, hm⟩
    · exact absurd he (by decide)
    · rcases List.mem_append.mp hpart with hp | hp
      · obtain ⟨package, hpackage, rfl⟩ := List.mem_map.mp hp
        have hold : '/' ∈ package := (mem_replace hm).resolve_right (by decide)
        exact slash_not_mem_part (List.mem_append_left _ hpackage) hold
      · exact slash_not_mem_part (List.mem_append_right _ hp) hm

/-! ## How the classes hang together -/

/-- With a class the archive has the outermost of the classes around it. -/
def Rooted (classes : List StoredClass) : Prop :=
  ∀ c ∈ classes, c.outermost ∈ classes

/-- No package around the class is called like a class that is registered. -/
def Unshadowed (c : StoredClass) (classes : List StoredClass) : Prop :=
  ∀ package, package ≠ [] → package <+: c.packageParts →
    (searchPath classes).hasClass (String.ofList (join '.' package)) = false

/-- The name is cut right by its capital letters. -/
def Capitalized (c : StoredClass) : Prop :=
  (∀ package ∈ c.packageParts.getLast?, BinaryName.startsUppercase package = false) ∧
    ∀ part ∈ c.classParts.dropLast, BinaryName.startsUppercase part = true

theorem guessed_eq_reading_iff {c : StoredClass} :
    Reading.guessed (c.packageParts ++ c.classParts) = c.reading ↔ c.Capitalized :=
  Reading.guessed_append_iff c.classParts_ne_nil

/-! ## Samples -/

/-- `p/O.class`. -/
def outerSample : StoredClass :=
  ⟨[⟨"p", by decide, forall_mem_of_all (by decide)⟩],
    ⟨⟨"O", by decide, forall_mem_of_all (by decide)⟩, by decide⟩, []⟩

/-- `p/O$N.class`. -/
def nestedSample : StoredClass :=
  { outerSample with nested := [⟨⟨"N", by decide, forall_mem_of_all (by decide)⟩, by decide⟩] }

/-- `a$b/O.class`. -/
def markedSample : StoredClass :=
  { outerSample with package := [⟨"a$b", by decide, forall_mem_of_all (by decide)⟩] }

theorem rooted_samples : Rooted [outerSample, nestedSample] := by
  intro c hc
  rcases List.mem_pair.mp hc with rfl | rfl <;> exact List.mem_cons_self

theorem unshadowed_nestedSample : nestedSample.Unshadowed [outerSample, nestedSample] := by
  have hpackages : ∀ package ∈ nestedSample.packageParts.inits, package ≠ [] →
      (searchPath [outerSample, nestedSample]).hasClass (String.ofList (join '.' package)) =
        false := by decide
  intro package hne hpre
  exact hpackages package ((List.mem_inits _ _).mpr hpre) hne

end StoredClass

namespace Scope

section Known

variable {classes : List StoredClass} {s : Scope} {c : StoredClass}
  (hpath : s.classPath = (StoredClass.searchPath classes).hasClass)
include hpath

theorem knows_eq (name : List Char) :
    s.knows name = (StoredClass.searchPath classes).hasClass (String.ofList name) := by
  rw [knows, hpath]

theorem not_knows_of_mark {name : List Char} (h : '$' ∈ name) : s.knows name = false := by
  rw [knows_eq hpath, Bool.eq_false_iff]
  exact fun hk => (StoredClass.clean_of_hasClass hk).1 h

theorem knows_dottedName (hc : c ∈ classes) (hm : ¬c.Marked) : s.knows c.dottedName = true := by
  rw [knows_eq hpath, ← StoredClass.registeredName_of_not_marked hm]
  exact StoredClass.hasClass_searchPath.mpr ⟨c, hc, rfl⟩

/-- Of the name of a marked class nothing is known behind the mark. -/
theorem unknown_of_marked (hu : c.Unshadowed classes) (hm : c.Marked) :
    ∀ p, p ≠ [] → p <+: c.packageParts ++ c.classParts → s.knows (join '.' p) = false := by
  intro p hne hpre
  rcases List.prefix_or_prefix_of_prefix hpre (List.prefix_append _ _) with hinside | hbeyond
  · rw [knows_eq hpath]
    exact hu p hne hinside
  · obtain ⟨package, hpackage, hmark⟩ := hm
    exact not_knows_of_mark hpath (mem_join_of_mem (hbeyond.subset hpackage) hmark)

/-- Where a qualified name is cut.  The class path is right about all classes without the mark `$`
in their package, and for the others capital letters have to tell. -/
theorem cut_dottedName_iff (ho : c.outermost ∈ classes) :
    s.cut c.dottedName = c.reading ↔ c.Unshadowed classes ∧ (c.Marked → c.Capitalized) := by
  have hparts : ∀ part ∈ c.packageParts ++ c.classParts, BinaryName.IsPart part :=
    fun _ => StoredClass.isPart_of_mem
  have hunshadowed : c.Unshadowed classes ↔
      ∀ p, p ≠ [] → p <+: c.packageParts → s.knows (join '.' p) = false := by
    simp only [knows_eq hpath]
    rfl
  have hguess : c.Unshadowed classes → c.Marked →
      s.cut c.dottedName = .guessed (c.packageParts ++ c.classParts) := fun hu hm =>
    cut_of_unknown (by simp [StoredClass.classParts]) hparts (unknown_of_marked hpath hu hm)
  constructor
  · intro hcut
    have hu := hunshadowed.mpr (unknown_of_cut_eq c.classParts_ne_nil hparts hcut)
    refine ⟨hu, fun hm => ?_⟩
    rw [hguess hu hm] at hcut
    exact StoredClass.guessed_eq_reading_iff.mp hcut
  · rintro ⟨hu, hcapitalized⟩
    by_cases hm : c.Marked
    · rw [hguess hu hm]
      exact StoredClass.guessed_eq_reading_iff.mpr (hcapitalized hm)
    · have houter : s.knows (join '.' (c.packageParts ++ [c.outer.text.toList])) = true :=
        knows_dottedName (c := c.outermost) hpath ho hm
      exact cut_of_outermost hparts houter (hunshadowed.mp hu)

/-- The last rule finds a class by its qualified name if the name is cut where the class is. -/
theorem binaryNameOf_dottedName_iff (ho : c.outermost ∈ classes) :
    s.binaryNameOf c.dottedName = .ok c.binary ↔
      c.Unshadowed classes ∧ (c.Marked → c.Capitalized) := by
  rw [binaryNameOf_eq, classNamed_eq_ok_iff, ← cut_dottedName_iff hpath ho]
  have happend : c.reading.package ++ c.reading.classes =
      (s.cut c.dottedName).package ++ (s.cut c.dottedName).classes :=
    (package_append_classes_cut (by simp [StoredClass.classParts])
      fun _ => StoredClass.isPart_of_mem).symm
  constructor
  · intro he
    have htext : c.reading.text = (s.cut c.dottedName).text := String.ofList_injective he
    exact (Reading.eq_of_text_eq (fun _ => StoredClass.slash_not_mem_part) happend htext).symm
  · intro hcut
    rw [hcut]
    rfl

end Known

theorem parameter?_eq_none {s : Scope} (h : s.typeParameters = []) (name : String) :
    s.parameter? name = none := by
  unfold parameter?
  rw [h, List.find?_nil]

theorem exactImport?_eq_none {s : Scope} (h : ∀ i ∈ s.imports, i.wildcard = true)
    (name : List Char) : s.exactImport? name = none := by
  apply List.findSome?_eq_none_iff.mpr
  intro i hi
  simp [matchImport?, h i hi]

/-- A name without arguments means a stored class if the rules for classes find it. -/
theorem resolve_eq_stored_iff {s : Scope} {name : List Char} {c : StoredClass}
    (ht : s.typeParameters = []) (hn : PlainName name) :
    s.resolve (String.ofList name) = .ok (.erased ("L" ++ String.ofList c.binaryName ++ ";")) ↔
      s.classOf name = .ok c.binary := by
  rw [resolve_of_plain hn (parameter?_eq_none ht _)]
  cases s.classOf name with
  | error e => simp [Except.map]
  | ok n =>
    constructor
    · intro h
      have htext : n.text = String.ofList c.binaryName := by
        have hdescriptor := congrArg (fun t : JavaType => t.descriptor) (Except.ok.inj h)
        simpa [JavaType.ofBinaryName, JavaType.erased, BinaryName.descriptor] using hdescriptor
      obtain ⟨text, hflaw⟩ := n
      dsimp only at htext
      subst htext
      rfl
    · intro h
      rw [Except.ok.inj h]
      rfl

/-- A scope in which nothing but the package and the class path gives a name a meaning. -/
structure Bare (s : Scope) (classes : List StoredClass) : Prop where
  imports : s.imports = []
  typeParameters : s.typeParameters = []
  explicitLang : s.settings.implicitJavaLang = false
  classPath : s.classPath = (StoredClass.searchPath classes).hasClass

theorem classOf_of_bare {classes : List StoredClass} {s : Scope} {c : StoredClass}
    (hs : s.Bare classes) (hp : c.package ≠ []) :
    s.classOf c.dottedName =
      if s.knows (qualify s.package.toList c.dottedName) then
        classNamed c.dottedName (s.binaryInPackage c.dottedName)
      else s.binaryNameOf c.dottedName := by
  have himport : s.exactImport? c.dottedName = none := exactImport?_eq_none (by simp [hs.imports]) _
  have hwild : s.wildcardClass? c.dottedName = none := by
    unfold wildcardClass? wildcards
    rw [hs.imports, hs.explicitLang]
    rfl
  have hdot : ¬('.' ∉ c.dottedName ∧ s.settings.allowDefaultPackage = false) :=
    fun h => h.1 (StoredClass.dot_mem_dottedName hp)
  unfold classOf
  rw [himport, hwild]
  dsimp only
  rw [if_neg hdot]

/-- The default package takes a registered name for that of nested classes. -/
theorem classOf_dottedName_of_default {classes : List StoredClass} {s : Scope} {c : StoredClass}
    (hs : s.Bare classes) (hc : c ∈ classes) (hp : c.package ≠ []) (hm : ¬c.Marked)
    (hd : s.package = "") : s.classOf c.dottedName = .ok c.nestedBinary := by
  have hk : s.knows (qualify s.package.toList c.dottedName) = true := by
    rw [hd]
    exact knows_dottedName hs.classPath hc hm
  have hb : s.binaryInPackage c.dottedName = join '$' (c.packageParts ++ c.classParts) := by
    unfold binaryInPackage
    rw [hd]
    refine replace_join_of_not_mem fun p hp => ?_
    exact (StoredClass.isPart_of_mem hp).2 '.' (by decide)
  rw [classOf_of_bare hs hp, if_pos hk, hb]
  exact classNamed_eq_ok_iff.mpr rfl

/-- Which qualified names mean their class.  No package may be called like a class, and then it is
the name of every class without the mark `$` in its package, from every package but the default one.
Names of the other classes are guessed, from the default package as well. -/
theorem resolve_dottedName_iff {classes : List StoredClass} {s : Scope} {c : StoredClass}
    (hroot : StoredClass.Rooted classes) (hs : s.Bare classes) (hc : c ∈ classes)
    (hp : c.package ≠ [])
    (hself : s.package ≠ "" → (StoredClass.searchPath classes).hasClass
      (s.package ++ "." ++ String.ofList c.dottedName) = false) :
    s.resolve (String.ofList c.dottedName) =
        .ok (.erased ("L" ++ String.ofList c.binaryName ++ ";")) ↔
      c.Unshadowed classes ∧ (c.Marked → c.Capitalized) ∧ (¬c.Marked → s.package ≠ "") := by
  have hlast := binaryNameOf_dottedName_iff hs.classPath (hroot c hc)
  have hother : s.package ≠ "" → s.knows (qualify s.package.toList c.dottedName) = false := by
    intro hd
    have hne : s.package.toList ≠ [] := fun h => hd (String.toList_injective h)
    have he : String.ofList (s.package.toList ++ '.' :: c.dottedName) =
        s.package ++ "." ++ String.ofList c.dottedName := String.toList_injective (by simp)
    rw [knows_eq hs.classPath, qualify, if_neg hne, he]
    exact hself hd
  rw [resolve_eq_stored_iff hs.typeParameters (StoredClass.plainName_dottedName hp)]
  by_cases hm : c.Marked
  · -- the mark keeps the name out of the search path, whatever is in front of it
    have hk : s.knows (qualify s.package.toList c.dottedName) = false := by
      by_cases hd : s.package = ""
      · rw [hd]
        exact not_knows_of_mark hs.classPath hm.mem_dottedName
      · exact hother hd
    rw [classOf_of_bare hs hp, if_neg (Bool.eq_false_iff.mp hk), hlast]
    simp [hm]
  · by_cases hd : s.package = ""
    · rw [classOf_dottedName_of_default hs hc hp hm hd]
      refine iff_of_false (fun he => ?_) fun h => h.2.2 hm hd
      exact StoredClass.nestedBinary_ne hp (Except.ok.inj he)
    · rw [classOf_of_bare hs hp, if_neg (Bool.eq_false_iff.mp (hother hd)), hlast]
      simp [hm, hd]

section Samples

open StoredClass

/-- Another package finds the nested class. -/
theorem resolve_nestedSample :
    (⟨"q", [], [], (searchPath [outerSample, nestedSample]).hasClass, ⟨false, false⟩⟩ :
      Scope).resolve "p.O.N" = .ok (.erased "Lp/O$N;") := by
  refine (resolve_dottedName_iff (c := nestedSample) rooted_samples ⟨rfl, rfl, rfl, rfl⟩
    (List.mem_pair.mpr (.inr rfl)) ?_ ?_).mpr ⟨unshadowed_nestedSample, ?_, ?_⟩
  · decide
  · decide
  · intro hm
    exact absurd hm (by decide)
  · decide

/-- The default package does not. -/
theorem resolve_nestedSample_of_default :
    (⟨"", [], [], (searchPath [outerSample, nestedSample]).hasClass, ⟨false, false⟩⟩ :
      Scope).resolve "p.O.N" = .ok (.erased "Lp$O$N;") := by
  have hclass := classOf_dottedName_of_default (c := nestedSample)
    (s := ⟨"", [], [], (searchPath [outerSample, nestedSample]).hasClass, ⟨false, false⟩⟩)
    ⟨rfl, rfl, rfl, rfl⟩ (List.mem_pair.mpr (.inr rfl)) (by decide) (by decide) rfl
  refine (resolve_of_plain (plainName_dottedName (c := nestedSample) (by decide))
    rfl).trans ?_
  rw [hclass]
  rfl

end Samples

end Scope
end JvmWeave
