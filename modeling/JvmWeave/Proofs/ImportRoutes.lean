import JvmWeave.Proofs.QualifiedName
import JvmWeave.Proofs.RuleOrder

/-!
# Classes in scope

There are four ways to name a class without its package: an import of its outermost class, an import
of the class itself, a wildcard for its package, and being in that package.  Each builds the binary
name from other pieces.  The two imports of a class hand its qualified name to the last rule.  The
wildcard does so as well, but asks the class path first whether there is such a class.  The rule for
the scope's own package asks too, and then puts the name together without any cut.

For a class whose package has no mark `$` in its name all four lead to the name that the archive has
it under.  For one whose package has, they come apart (`StoredClass.resolve_by_every_route_iff`).

* The search path does not know the class by its dotted name, so the two ways that ask for it never
  succeed.  What they find in its place is no accident that could be right: every name that is known,
  and every name in the package, is without `$`, so no reading of it has a package with `$` in it
  (`binaryNameOf_ne_of_marked`).
* The two imports do not ask, and the guess by capital letters may be right.

An import of an outer class comes second to one of the class itself, which is recognized by how the
imported name ends.  The two are only kept apart if the nested class is not called like the outer
one.
-/

set_option autoImplicit false

namespace JvmWeave

open Text

/-! ## Last pieces -/

namespace Text

variable {mark : Char}

theorem append_join_eq (before : List Char) {pieces : List (List Char)} (h : pieces ≠ []) :
    before ++ mark :: join mark pieces =
      join mark (before :: pieces.dropLast) ++ mark :: pieces.getLast h := by
  rw [← join_cons h, ← join_append_singleton _ (by simp), List.cons_append,
    List.dropLast_append_getLast]

theorem eq_of_append_mark {before before' last last' : List Char} (hl : mark ∉ last)
    (hl' : mark ∉ last') (h : before ++ mark :: last = before' ++ mark :: last') :
    last = last' := by
  rcases List.append_eq_append_iff.mp h with ⟨between, -, he⟩ | ⟨between, -, he⟩
  · cases between with
    | nil => exact (List.cons.inj he).2
    | cons c between =>
      refine absurd ?_ hl
      simp [(List.cons.inj he).2]
  · cases between with
    | nil => exact (List.cons.inj he).2.symm
    | cons c between =>
      refine absurd ?_ hl'
      simp [(List.cons.inj he).2]

end Text

/-! ## The rules -/

namespace Scope

theorem matchImport?_whole (before name : List Char) :
    matchImport? name (.ofClass (String.ofList (before ++ '.' :: name))) =
      some (.whole (before ++ '.' :: name)) := by
  have hends : stripSuffix? ('.' :: name) (before ++ '.' :: name) = some before :=
    stripSuffix?_eq_some_iff.mpr rfl
  simp [matchImport?, Import.ofClass, hends]

/-- An import explains names of nested classes that it does not itself end with. -/
theorem matchImport?_outer {before outer nested : List Char} (ho : '.' ∉ outer)
    (hw : ∀ rest, before ++ '.' :: outer ≠ rest ++ '.' :: nested) :
    matchImport? (outer ++ '.' :: nested) (.ofClass (String.ofList (before ++ '.' :: outer))) =
      some (.outer (before ++ '.' :: outer) nested) := by
  have hends : stripSuffix? ('.' :: (outer ++ '.' :: nested)) (before ++ '.' :: outer) = none := by
    rw [Option.eq_none_iff_forall_ne_some]
    intro rest hrest
    rw [stripSuffix?_eq_some_iff] at hrest
    exact hw (rest ++ '.' :: outer) (by simpa using hrest)
  have hfirst : stripSuffix? ('.' :: outer) (before ++ '.' :: outer) = some before :=
    stripSuffix?_eq_some_iff.mpr rfl
  have hmark : ∀ c ∈ outer, decide (c ≠ '.') = true := fun c hc =>
    decide_eq_true fun e : c = '.' => ho (e ▸ hc)
  unfold matchImport? Import.ofClass
  dsimp only
  rw [String.toList_ofList, hends, List.dropWhile_append_of_pos hmark,
    List.takeWhile_append_of_pos hmark, List.dropWhile_cons_of_neg (by decide),
    List.takeWhile_cons_of_neg (by decide), List.append_nil, hfirst]
  simp [hw outer]

variable {s : Scope} {name : List Char}

theorem classOf_of_import {before : List Char}
    (hi : s.imports = [.ofClass (String.ofList (before ++ '.' :: name))]) :
    s.classOf name = s.binaryNameOf (before ++ '.' :: name) := by
  have hfound : s.exactImport? name = some (.whole (before ++ '.' :: name)) := by
    unfold exactImport?
    rw [hi, List.findSome?_cons, matchImport?_whole]
  exact classOf_of_exactImport? hfound

theorem classOf_of_outerImport {before outer nested : List Char}
    (hi : s.imports = [.ofClass (String.ofList (before ++ '.' :: outer))]) (ho : '.' ∉ outer)
    (hw : ∀ rest, before ++ '.' :: outer ≠ rest ++ '.' :: nested) :
    s.classOf (outer ++ '.' :: nested) =
      s.importedClass (outer ++ '.' :: nested) (.outer (before ++ '.' :: outer) nested) := by
  have hfound : s.exactImport? (outer ++ '.' :: nested) =
      some (.outer (before ++ '.' :: outer) nested) := by
    unfold exactImport?
    rw [hi, List.findSome?_cons, matchImport?_outer ho hw]
  exact classOf_of_exactImport? hfound

theorem classOf_of_wildcard {package : List Char}
    (hi : s.imports = [.ofPackage (String.ofList package)])
    (ho : s.knows (qualify s.package.toList name) = false)
    (hk : s.knows (qualify package name) = true) :
    s.classOf name = s.binaryNameOf (qualify package name) := by
  have hclass : ∀ i ∈ s.imports, ¬i.Explains name := by
    intro i hm
    rw [hi, List.mem_singleton] at hm
    rw [hm]
    exact Import.not_explains_of_wildcard rfl name
  have hprovides : s.Provides (.ofPackage (String.ofList package)) name := by
    refine ⟨rfl, ?_⟩
    dsimp only [Import.ofPackage]
    rw [String.toList_ofList]
    exact hk
  have hfirst : s.imports = [] ++ .ofPackage (String.ofList package) :: [] := hi
  rw [classOf_of_first hclass ho hfirst hprovides fun _ hj => absurd hj List.not_mem_nil]
  dsimp only [Import.ofPackage]
  rw [String.toList_ofList]

theorem classOf_of_package (hi : s.imports = [])
    (hk : s.knows (qualify s.package.toList name) = true) :
    s.classOf name = classNamed name (s.binaryInPackage name) :=
  classOf_of_knows (by simp [hi]) hk

end Scope

/-! ## Names of stored classes -/

namespace StoredClass

def packageName (c : StoredClass) : List Char :=
  join '.' c.packageParts

/-- The names of the classes in the outermost one. -/
def nestedParts (c : StoredClass) : List (List Char) :=
  c.nested.map fun i => i.text.toList

/-- The name of the class in its package. -/
def relativeName (c : StoredClass) : List Char :=
  join '.' c.classParts

/-- The name of the class itself. -/
def simpleName (c : StoredClass) : List Char :=
  c.classParts.getLast c.classParts_ne_nil

variable {c : StoredClass}

theorem dot_not_mem_classPart {part : List Char} (h : part ∈ c.classParts) : '.' ∉ part :=
  (isPart_of_mem (List.mem_append_right _ h)).2 '.' (by decide)

theorem simpleName_mem (c : StoredClass) : c.simpleName ∈ c.classParts :=
  List.getLast_mem c.classParts_ne_nil

theorem dottedName_eq (hp : c.package ≠ []) :
    c.dottedName = c.packageName ++ '.' :: c.relativeName :=
  join_append (packageParts_ne_nil hp) c.classParts_ne_nil

theorem packageName_ne_nil (hp : c.package ≠ []) : c.packageName ≠ [] := by
  apply join_ne_nil (packageParts_ne_nil hp)
  intro p h
  exact (isPart_of_mem (List.mem_append_left _ h)).1

theorem qualify_packageName (hp : c.package ≠ []) :
    Scope.qualify c.packageName c.relativeName = c.dottedName := by
  rw [Scope.qualify, if_neg (packageName_ne_nil hp), dottedName_eq hp]

theorem binaryName_eq (hp : c.package ≠ []) :
    c.binaryName = join '/' c.packageParts ++ '/' :: join '$' c.classParts :=
  join_append_singleton _ (packageParts_ne_nil hp)

/-- The names of classes have neither the mark of nested classes nor a slash. -/
theorem relativeName_clean (c : StoredClass) : '$' ∉ c.relativeName ∧ '/' ∉ c.relativeName := by
  constructor
  · intro hm
    rcases mem_join hm with he | ⟨part, hpart, hm⟩
    · exact absurd he (by decide)
    · exact classPart_unmarked hpart hm
  · intro hm
    rcases mem_join hm with he | ⟨part, hpart, hm⟩
    · exact absurd he (by decide)
    · exact slash_not_mem_part (List.mem_append_right _ hpart) hm

/-- A class that is in no other is named by one part. -/
theorem relativeName_of_outermost (hn : c.nested = []) : c.relativeName = c.simpleName := by
  simp [relativeName, simpleName, classParts, hn, join]

section Nested

variable (hn : c.nested ≠ [])
include hn

theorem nestedParts_ne_nil : c.nestedParts ≠ [] := by
  simpa [nestedParts] using hn

theorem relativeName_of_nested :
    c.relativeName = c.outer.text.toList ++ '.' :: join '.' c.nestedParts :=
  join_cons (nestedParts_ne_nil hn)

theorem simpleName_of_nested :
    c.simpleName = c.nestedParts.getLast (nestedParts_ne_nil hn) :=
  List.getLast_cons (nestedParts_ne_nil hn)

theorem binaryName_of_nested (hp : c.package ≠ []) :
    c.binaryName = c.outermost.binaryName ++ '$' :: join '$' c.nestedParts := by
  have hout : c.outermost.binaryName = join '/' c.packageParts ++ '/' :: c.outer.text.toList :=
    binaryName_eq hp
  have hjoin : join '$' c.classParts = c.outer.text.toList ++ '$' :: join '$' c.nestedParts :=
    join_cons (nestedParts_ne_nil hn)
  rw [binaryName_eq hp, hout, hjoin, List.append_assoc, List.cons_append]

theorem outer_mem_dropLast : c.outer.text.toList ∈ c.classParts.dropLast := by
  have hparts : c.classParts = c.outer.text.toList :: c.nestedParts := rfl
  rw [hparts, List.dropLast_cons_of_ne_nil (nestedParts_ne_nil hn)]
  exact List.mem_cons_self

/-- What ends with the outer class does not end with the nested one, which has another name. -/
theorem append_outer_ne (hname : c.simpleName ∉ c.classParts.dropLast) (before rest : List Char) :
    before ++ '.' :: c.outer.text.toList ≠ rest ++ '.' :: join '.' c.nestedParts := by
  intro he
  have houter : '.' ∉ c.outer.text.toList := dot_not_mem_classPart List.mem_cons_self
  have hsimple : '.' ∉ c.simpleName := dot_not_mem_classPart c.simpleName_mem
  rw [append_join_eq rest (nestedParts_ne_nil hn), ← simpleName_of_nested hn] at he
  apply hname
  rw [← eq_of_append_mark houter hsimple he]
  exact outer_mem_dropLast hn

end Nested

/-- No part of the name of the class is a keyword. -/
def FreeOfKeywords (c : StoredClass) : Prop :=
  ∀ part ∈ c.classParts, Primitive.ofKeyword? (String.ofList part) = none

theorem plainName_simpleName (hk : c.FreeOfKeywords) : PlainName c.simpleName := by
  have hparts : ∀ p ∈ [c.simpleName], ∃ i : Identifier, i.text.toList = p := by
    intro p hp
    rw [List.mem_singleton.mp hp]
    exact mem_parts (List.mem_append_right _ c.simpleName_mem)
  exact plainName_join (List.cons_ne_nil _ _) hparts (hk _ c.simpleName_mem)

theorem plainName_relativeName (hk : c.FreeOfKeywords) : PlainName c.relativeName := by
  apply plainName_join c.classParts_ne_nil
  · intro p hp
    exact mem_parts (List.mem_append_right _ hp)
  · show Primitive.ofKeyword? (String.ofList c.relativeName) = none
    by_cases hn : c.nested = []
    · rw [relativeName_of_outermost hn]
      exact hk _ c.simpleName_mem
    · apply ofKeyword?_of_dot
      apply mark_mem_join
      simpa using hn

/-- The names of the package and the class are kept apart by the marks between them. -/
theorem classNamed_relativeName (name : List Char) (hp : c.package ≠ []) :
    Scope.classNamed name (replace '.' '/' c.packageName ++ '/' :: replace '.' '$' c.relativeName) =
      .ok c.binary := by
  have hpackage : replace '.' '/' c.packageName = join '/' c.packageParts := by
    apply replace_join_of_not_mem
    intro p h
    exact (isPart_of_mem (List.mem_append_left _ h)).2 '.' (by decide)
  have hclass : replace '.' '$' c.relativeName = join '$' c.classParts := by
    apply replace_join_of_not_mem
    intro p h
    exact dot_not_mem_classPart h
  rw [hpackage, hclass, ← binaryName_eq hp]
  exact Scope.classNamed_eq_ok_iff.mpr rfl

/-! ## What a package with the mark is out of reach of -/

/-- A name without `$` is read as a class of a package without it. -/
theorem binaryNameOf_ne_of_marked {s : Scope} {name : List Char} (hm : c.Marked)
    (hname : '$' ∉ name ∧ '/' ∉ name) : s.binaryNameOf name ≠ .ok c.binary := by
  intro h
  have hparts : ∀ part ∈ (s.cut name).package ++ (s.cut name).classes, ∀ ch ∈ part, ch ∈ name := by
    intro part hpart ch hch
    rw [← join_split '.' name]
    exact mem_join_of_mem (Scope.mem_split_of_mem_cut hpart) hch
  rw [Scope.binaryNameOf_eq, Scope.classNamed_eq_ok_iff] at h
  have htext : c.reading.text = (s.cut name).text := String.ofList_injective h
  have hpackage : c.packageParts = (s.cut name).package :=
    Reading.package_eq_of_text_eq (fun _ => slash_not_mem_part)
      (fun part hpart hs => hname.2 (hparts part hpart _ hs)) htext
  obtain ⟨package, hp, hmark⟩ := hm
  rw [hpackage] at hp
  exact hname.1 (hparts package (List.mem_append_left _ hp) _ hmark)

section Routes

variable {classes : List StoredClass} {s : Scope}
  (hpath : s.classPath = (searchPath classes).hasClass)
include hpath

/-- Without an import of a class, only known names and the name itself are tried. -/
theorem classOf_ne_of_marked {name : List Char} (hm : c.Marked)
    (hi : ∀ i ∈ s.imports, i.wildcard = true)
    (ho : s.knows (Scope.qualify s.package.toList name) = false)
    (hname : '$' ∉ name ∧ '/' ∉ name) : s.classOf name ≠ .ok c.binary := by
  unfold Scope.classOf
  rw [Scope.exactImport?_eq_none hi]
  dsimp only
  rw [if_neg (Bool.eq_false_iff.mp ho)]
  cases hwild : s.wildcardClass? name with
  | some qualified =>
    have hk : s.knows qualified = true := List.find?_some hwild
    rw [Scope.knows_eq hpath] at hk
    exact binaryNameOf_ne_of_marked hm (clean_of_hasClass hk)
  | none =>
    dsimp only
    split
    · intro h
      cases h
    · exact binaryNameOf_ne_of_marked hm hname

/-! ## Four routes -/

theorem classOf_of_exactImport_iff (hroot : Rooted classes) (hc : c ∈ classes) (hp : c.package ≠ [])
    (hi : s.imports = [.ofClass (String.ofList c.dottedName)]) :
    s.classOf c.simpleName = .ok c.binary ↔
      c.Unshadowed classes ∧ (c.Marked → c.Capitalized) := by
  have hname : c.dottedName =
      join '.' (c.packageName :: c.classParts.dropLast) ++ '.' :: c.simpleName := by
    rw [dottedName_eq hp]
    exact append_join_eq _ c.classParts_ne_nil
  rw [hname] at hi
  rw [Scope.classOf_of_import hi, ← hname]
  exact Scope.binaryNameOf_dottedName_iff hpath (hroot c hc)

theorem classOf_of_outermostImport_iff (hroot : Rooted classes) (hc : c ∈ classes)
    (hp : c.package ≠ []) (hname : c.simpleName ∉ c.classParts.dropLast)
    (hi : s.imports = [.ofClass (String.ofList c.outermost.dottedName)]) :
    s.classOf c.relativeName = .ok c.binary ↔
      c.Unshadowed classes ∧ (c.Marked → c.outermost.Capitalized) := by
  by_cases hn : c.nested = []
  · have hout : c.outermost = c := by rw [outermost, ← hn]
    rw [hout] at hi ⊢
    rw [relativeName_of_outermost hn]
    exact classOf_of_exactImport_iff hpath hroot hc hp hi
  · have himported : c.outermost.dottedName = c.packageName ++ '.' :: c.outer.text.toList :=
      dottedName_eq hp
    have houter : '.' ∉ c.outer.text.toList := dot_not_mem_classPart List.mem_cons_self
    have hreplace : replace '.' '$' (join '.' c.nestedParts) = join '$' c.nestedParts := by
      apply replace_join_of_not_mem
      intro p h
      exact dot_not_mem_classPart (List.mem_cons_of_mem _ h)
    have hfound := Scope.binaryNameOf_dottedName_iff (c := c.outermost) hpath (hroot c hc)
    rw [himported] at hi hfound
    rw [relativeName_of_nested hn,
      Scope.classOf_of_outerImport hi houter (append_outer_ne hn hname c.packageName)]
    refine Iff.trans ?_ hfound
    -- the nested classes are written behind whatever the imported name was read as
    rw [Scope.importedClass, hreplace]
    cases s.binaryNameOf (c.packageName ++ '.' :: c.outer.text.toList) with
    | error e => simp
    | ok n =>
      dsimp only
      rw [Scope.classNamed_eq_ok_iff, Except.ok.injEq]
      show String.ofList c.binaryName = _ ↔ _
      rw [binaryName_of_nested hn hp, String.ofList_inj, List.append_left_inj]
      constructor
      · intro he
        obtain ⟨text, hflaw⟩ := n
        have htext : text = String.ofList c.outermost.binaryName := by
          rw [he]
          exact String.ofList_toList.symm
        subst htext
        rfl
      · rintro rfl
        exact String.toList_ofList.symm

theorem classOf_of_packageImport_iff (hroot : Rooted classes) (hc : c ∈ classes)
    (hp : c.package ≠ []) (hi : s.imports = [.ofPackage (String.ofList c.packageName)])
    (ho : s.knows (Scope.qualify s.package.toList c.relativeName) = false) :
    s.classOf c.relativeName = .ok c.binary ↔ c.Unshadowed classes ∧ ¬c.Marked := by
  by_cases hm : c.Marked
  · refine iff_of_false ?_ fun h => h.2 hm
    apply classOf_ne_of_marked hpath hm ?_ ho c.relativeName_clean
    intro i himport
    rw [hi, List.mem_singleton] at himport
    rw [himport]
    rfl
  · have hk : s.knows (Scope.qualify c.packageName c.relativeName) = true := by
      rw [qualify_packageName hp]
      exact Scope.knows_dottedName hpath hc hm
    rw [Scope.classOf_of_wildcard hi ho hk, qualify_packageName hp,
      Scope.binaryNameOf_dottedName_iff hpath (hroot c hc)]
    simp [hm]

theorem classOf_of_samePackage_iff (hc : c ∈ classes) (hp : c.package ≠ []) (hi : s.imports = [])
    (hs : s.package = String.ofList c.packageName) :
    s.classOf c.relativeName = .ok c.binary ↔ ¬c.Marked := by
  have hown : Scope.qualify s.package.toList c.relativeName = c.dottedName := by
    rw [hs, String.toList_ofList, qualify_packageName hp]
  by_cases hm : c.Marked
  · refine iff_of_false ?_ fun h => h hm
    have ho : s.knows (Scope.qualify s.package.toList c.relativeName) = false := by
      rw [hown]
      exact Scope.not_knows_of_mark hpath hm.mem_dottedName
    exact classOf_ne_of_marked hpath hm (by simp [hi]) ho c.relativeName_clean
  · refine iff_of_true ?_ hm
    have hk : s.knows (Scope.qualify s.package.toList c.relativeName) = true := by
      rw [hown]
      exact Scope.knows_dottedName hpath hc hm
    have hne : replace '.' '/' c.packageName ≠ [] := by
      simpa [replace] using packageName_ne_nil hp
    rw [Scope.classOf_of_package hi hk, ← classNamed_relativeName c.relativeName hp]
    unfold Scope.binaryInPackage
    dsimp only
    rw [hs, String.toList_ofList, if_neg hne, List.append_assoc, List.singleton_append]

end Routes

/-- Which routes to a class lead to the name that the archive has it under.  All four do unless the
mark `$` is in its package.  Then the search path does not know it by its dotted name, the routes
that ask for that name fail, and the two imports of a class depend on its capital letters. -/
theorem resolve_by_every_route_iff {classes : List StoredClass} {s : Scope} (hroot : Rooted classes)
    (hpath : s.classPath = (searchPath classes).hasClass) (ht : s.typeParameters = [])
    (hc : c ∈ classes) (hp : c.package ≠ []) (hk : c.FreeOfKeywords)
    (hname : c.simpleName ∉ c.classParts.dropLast) :
    let type : Except ResolveError JavaType :=
      .ok (.erased ("L" ++ String.ofList c.binaryName ++ ";"))
    ({ s with imports := [.ofClass (String.ofList c.outermost.dottedName)] }.resolve
        (String.ofList c.relativeName) = type ↔
          c.Unshadowed classes ∧ (c.Marked → c.outermost.Capitalized)) ∧
      ({ s with imports := [.ofClass (String.ofList c.dottedName)] }.resolve
        (String.ofList c.simpleName) = type ↔
          c.Unshadowed classes ∧ (c.Marked → c.Capitalized)) ∧
      (s.knows (Scope.qualify s.package.toList c.relativeName) = false →
        ({ s with imports := [.ofPackage (String.ofList c.packageName)] }.resolve
          (String.ofList c.relativeName) = type ↔ c.Unshadowed classes ∧ ¬c.Marked)) ∧
      ({ s with package := String.ofList c.packageName, imports := [] }.resolve
        (String.ofList c.relativeName) = type ↔ ¬c.Marked) := by
  have hrelative := plainName_relativeName hk
  refine ⟨?_, ?_, fun ho => ?_, ?_⟩
  · apply Iff.trans (Scope.resolve_eq_stored_iff ?_ hrelative)
    · exact classOf_of_outermostImport_iff hpath hroot hc hp hname rfl
    · exact ht
  · apply Iff.trans (Scope.resolve_eq_stored_iff ?_ (plainName_simpleName hk))
    · exact classOf_of_exactImport_iff hpath hroot hc hp rfl
    · exact ht
  · apply Iff.trans (Scope.resolve_eq_stored_iff ?_ hrelative)
    · exact classOf_of_packageImport_iff hpath hroot hc hp rfl ho
    · exact ht
  · apply Iff.trans (Scope.resolve_eq_stored_iff ?_ hrelative)
    · exact classOf_of_samePackage_iff hpath hc hp rfl rfl
    · exact ht

/-- Four ways to the nested class. -/
theorem resolve_nestedSample_by_every_route :
    let classes := [outerSample, nestedSample]
    let s : Scope := ⟨"q", [], [], (searchPath classes).hasClass, {}⟩
    let type : Except ResolveError JavaType := .ok (.erased "Lp/O$N;")
    { s with imports := [.ofClass "p.O"] }.resolve "O.N" = type ∧
      { s with imports := [.ofClass "p.O.N"] }.resolve "N" = type ∧
      { s with imports := [.ofPackage "p"] }.resolve "O.N" = type ∧
      { s with package := "p", imports := [] }.resolve "O.N" = type := by
  intro classes s type
  have hk : nestedSample.FreeOfKeywords := by
    unfold FreeOfKeywords
    decide
  have hunmarked : ¬nestedSample.Marked := by decide
  have hall := resolve_by_every_route_iff (s := s) (c := nestedSample)
    rooted_samples rfl rfl
    (List.mem_pair.mpr (.inr rfl)) (by decide) hk (by decide)
  obtain ⟨houter, hexact, hwildcard, hsame⟩ := hall
  refine ⟨houter.mpr ?_, hexact.mpr ?_, (hwildcard (by decide)).mpr ?_, hsame.mpr hunmarked⟩
  · exact ⟨unshadowed_nestedSample, fun hm => absurd hm hunmarked⟩
  · exact ⟨unshadowed_nestedSample, fun hm => absurd hm hunmarked⟩
  · exact ⟨unshadowed_nestedSample, hunmarked⟩

/-- Neither a wildcard for its package nor being in that package leads to the class. -/
theorem resolve_markedSample :
    let classes := [markedSample]
    let s : Scope := ⟨"q", [], [], (searchPath classes).hasClass, {}⟩
    markedSample.entry = "a$b/O.class" ∧ Rooted classes ∧ markedSample.Unshadowed classes ∧
      markedSample.FreeOfKeywords ∧ markedSample.simpleName ∉ markedSample.classParts.dropLast ∧
      s.knows "q.O".toList = false ∧
      { s with imports := [.ofPackage "a$b"] }.resolve "O" = .error (.ambiguousDefaultPackage "O") ∧
      { s with package := "a$b", imports := [] }.resolve "O" =
        .error (.ambiguousDefaultPackage "O") := by
  intro classes s
  have hk : markedSample.FreeOfKeywords := by
    unfold FreeOfKeywords
    decide
  have hpackages : ∀ package ∈ markedSample.packageParts.inits, package ≠ [] →
      (searchPath classes).hasClass (String.ofList (join '.' package)) = false := by decide
  refine ⟨by decide, ?_, ?_, hk, by decide, by decide, ?_, ?_⟩
  · intro c hc
    rw [List.mem_singleton.mp hc]
    exact List.mem_cons_self
  · intro package hne hpre
    exact hpackages package ((List.mem_inits _ _).mpr hpre) hne
  · refine (Scope.resolve_of_plain (plainName_relativeName hk) rfl).trans ?_
    have hclass : { s with imports := [.ofPackage "a$b"] }.classOf markedSample.relativeName =
        .error (.ambiguousDefaultPackage "O") := by decide
    rw [hclass]
    rfl
  · refine (Scope.resolve_of_plain (plainName_relativeName hk) rfl).trans ?_
    have hclass : { s with package := "a$b", imports := [] }.classOf markedSample.relativeName =
        .error (.ambiguousDefaultPackage "O") := by decide
    rw [hclass]
    rfl

end StoredClass

end JvmWeave
