import JvmWeave.Proofs.EmptySegment
import JvmWeave.Proofs.RuleOrder

/-!
# Guessed packages

Where the package of a qualified name ends is looked up in the class path, and guessed from capital
letters if the class path knows nothing about the name.  For names that keep to the convention the
guess is what the class path would say, so that it makes no difference to an import whether the
imported class is on the class path.
-/

set_option autoImplicit false

namespace JvmWeave

open Text

/-! ## Marks -/

/-- The parts with these marks in between, one behind each part but the last. -/
def joinWith : List Char → List (List Char) → List Char
  | _, [] => []
  | [], part :: _ => part
  | mark :: marks, part :: parts => part ++ mark :: joinWith marks parts

namespace BinaryName

/-- The mark behind a part tells whether all parts from there up to the last, which is not looked
at, are capitalized. -/
theorem exists_joinWith_joinGuessed {parts : List (List Char)} (hne : parts ≠ []) :
    ∃ marks, joinGuessed parts = joinWith marks parts ∧ marks.length + 1 = parts.length ∧
      ∀ i < marks.length, marks[i]? =
        some (if ∀ part ∈ (parts.drop i).dropLast, startsUppercase part = true then '$' else '/') := by
  induction parts with
  | nil => exact absurd rfl hne
  | cons part parts ih =>
    by_cases hnil : parts = []
    · subst hnil
      exact ⟨[], rfl, rfl, by simp⟩
    · obtain ⟨marks, hjoin, hlength, hmarks⟩ := ih hnil
      refine ⟨(if (part :: parts).dropLast.all startsUppercase then '$' else '/') :: marks,
        ?_, ?_, ?_⟩
      · rw [joinGuessed_cons hnil, hjoin]
        rfl
      · rw [List.length_cons, hlength, List.length_cons]
      · intro i hi
        cases i with
        | zero => simp only [List.getElem?_cons_zero, List.drop_zero, List.all_eq_true]
        | succ i => exact hmarks i (Nat.lt_of_succ_lt_succ hi)

/-- Names of such parts can be guessed. -/
theorem exists_guess_of_isPart {parts : List (List Char)} (hne : parts ≠ [])
    (h : ∀ part ∈ parts, IsPart part) :
    ∃ n, guess (String.ofList (join '.' parts)) = .ok n ∧
      n.text = String.ofList (joinGuessed parts) := by
  have hsplit : split '.' (join '.' parts) = parts :=
    split_join hne fun part hp => (h part hp).2 '.' (by decide)
  have hsound : (Reading.guessed parts).Sound := by
    apply Reading.sound_of_isPart (Reading.classes_guessed_ne_nil hne)
    rwa [Reading.package_append_classes_guessed]
  rw [← hsplit] at hsound
  obtain ⟨n, hn⟩ := exists_guess_iff.mpr hsound
  refine ⟨n, hn, ?_⟩
  unfold guess at hn
  rw [String.toList_ofList, hsplit] at hn
  exact ofString_eq_ok_iff.mp hn

end BinaryName

/-! ## The convention -/

namespace Scope

/-- The scope without one of the known classes. -/
def without (s : Scope) (className : String) : Scope :=
  { s with classPath := fun c => c ≠ className && s.classPath c }

theorem knows_without (s : Scope) (className name : List Char) :
    (s.without (String.ofList className)).knows name =
      (decide (name ≠ className) && s.knows name) := by
  simp only [knows, without, ne_eq, String.ofList_inj]

/-- The outermost class of a name is known.  The packages around it are called like no class, and
small where classes are capitalized. -/
structure Conventional (s : Scope) (package : List (List Char)) (outer : List Char)
    (nested : List (List Char)) : Prop where
  outermost : s.knows (join '.' (package ++ [outer])) = true
  noPackage : ∀ p, p ≠ [] → p <+: package → s.knows (join '.' p) = false
  small : ∀ part ∈ package, BinaryName.startsUppercase part = false
  capitalized : ∀ part ∈ outer :: nested, BinaryName.startsUppercase part = true

section Parts

variable {s : Scope} {package nested : List (List Char)} {outer : List Char}

theorem binaryNameOf_of_cut {parts : List (List Char)} (hne : parts ≠ []) {n : BinaryName}
    (hn : n.text = String.ofList (BinaryName.joinGuessed parts)) {qualified : List Char}
    (hcut : s.cut qualified = .guessed parts) : s.binaryNameOf qualified = .ok n := by
  rw [binaryNameOf_eq, classNamed_eq_ok_iff, hcut, hn, BinaryName.joinGuessed_eq_text hne]

theorem Conventional.cut_eq (hs : s.Conventional package outer nested)
    (hparts : ∀ part ∈ package ++ outer :: nested, BinaryName.IsPart part) :
    s.cut (join '.' (package ++ outer :: nested)) = .guessed (package ++ outer :: nested) := by
  have hguessed : Reading.guessed (package ++ outer :: nested) = ⟨package, outer :: nested⟩ := by
    apply (Reading.guessed_append_iff (by simp)).mpr
    constructor
    · exact fun part hpart => hs.small part (List.mem_of_getLast? hpart)
    · exact fun part hpart => hs.capitalized part (List.dropLast_subset _ hpart)
  rw [hguessed, cut_of_outermost hparts hs.outermost hs.noPackage]

/-- Without the class itself the name is cut as before: its outermost class is still known, or it
was that class, and then nothing of the name is. -/
theorem Conventional.cut_without_eq (hs : s.Conventional package outer nested)
    (hparts : ∀ part ∈ package ++ outer :: nested, BinaryName.IsPart part) :
    (s.without (String.ofList (join '.' (package ++ outer :: nested)))).cut
        (join '.' (package ++ outer :: nested)) = .guessed (package ++ outer :: nested) := by
  have hless : ∀ name, s.knows name = false →
      (s.without (String.ofList (join '.' (package ++ outer :: nested)))).knows name = false := by
    intro name hname
    rw [knows_without, hname, Bool.and_false]
  by_cases hn : nested = []
  · -- the class is the outermost one, and no part of its name is known any more
    subst hn
    apply cut_of_unknown (by simp) hparts
    intro p hne hpre
    rcases List.prefix_concat_iff.mp hpre with rfl | hpre
    · rw [knows_without]
      simp
    · exact hless _ (hs.noPackage p hne hpre)
  · -- the outermost class is another one and stays
    refine Conventional.cut_eq ⟨?_, ?_, hs.small, hs.capitalized⟩ hparts
    · have hdot : ∀ part ∈ package ++ outer :: nested, '.' ∉ part := fun part hpart =>
        (hparts part hpart).2 '.' (by decide)
      have hdot' : ∀ part ∈ package ++ [outer], '.' ∉ part := by
        rw [← List.singleton_append, ← List.append_assoc] at hdot
        exact fun part hpart => hdot part (List.mem_append_left _ hpart)
      have hne : join '.' (package ++ [outer]) ≠ join '.' (package ++ outer :: nested) := by
        intro he
        have hparts := eq_of_join_eq (by simp) (by simp) hdot' hdot he
        simp [Ne.symm hn] at hparts
      rw [knows_without, decide_eq_true hne, hs.outermost, Bool.true_and]
    · exact fun p hne hpre => hless _ (hs.noPackage p hne hpre)

end Parts

/-- Names are guessed by the capital letters of their parts.  Under the convention the class path
gives the same class, and imports of it mean the same without it. -/
theorem guess_agrees_with_classPath {parts : List (List Char)} (hne : parts ≠ [])
    (hparts : ∀ part ∈ parts, BinaryName.IsPart part) :
    ∃ n marks, BinaryName.guess (String.ofList (join '.' parts)) = .ok n ∧
      n.text = String.ofList (joinWith marks parts) ∧ marks.length + 1 = parts.length ∧
      (∀ i < marks.length, marks[i]? = some
        (if ∀ part ∈ (parts.drop i).dropLast, BinaryName.startsUppercase part = true then '$'
        else '/')) ∧
      ∀ (s : Scope) (package nested : List (List Char)) (outer : List Char),
        parts = package ++ outer :: nested → s.Conventional package outer nested →
        s.binaryNameOf (join '.' parts) = .ok n ∧
        ∀ text name before after, ReadAsName text name → s.parameter? (String.ofList name) = none →
          s.imports = before ++ .ofClass (String.ofList (join '.' parts)) :: after →
          (∀ i ∈ before, ¬i.Explains name) →
          (Import.ofClass (String.ofList (join '.' parts))).Explains name →
          (s.without (String.ofList (join '.' parts))).resolve text = s.resolve text := by
  obtain ⟨n, hguess, hn⟩ := BinaryName.exists_guess_of_isPart hne hparts
  obtain ⟨marks, hjoin, hlength, hmarks⟩ := BinaryName.exists_joinWith_joinGuessed hne
  refine ⟨n, marks, hguess, by rw [hn, hjoin], hlength, hmarks, ?_⟩
  rintro s package nested outer rfl hs
  -- with and without the class the name is cut where it is guessed to be
  have hknown := binaryNameOf_of_cut hne hn (hs.cut_eq hparts)
  have hwithout := binaryNameOf_of_cut hne hn (hs.cut_without_eq hparts)
  refine ⟨hknown, ?_⟩
  intro text name before after hname hp himports hbefore hexplains
  have hclass : (s.without (String.ofList (join '.' (package ++ outer :: nested)))).classOf name =
      s.classOf name := by
    refine classOf_congr_of_import himports hexplains hbefore rfl ?_
    dsimp only [Import.ofClass]
    rw [String.toList_ofList, hknown, hwithout]
  exact hname.resolve_congr rfl hp hclass

/-- A scope that imports a nested class and knows it with its outer class. -/
def importingEntry : Scope :=
  ⟨"me", [.ofClass "java.util.List", .ofClass "java.util.Map.Entry"], [],
    fun c => c = "java.util.Map" || c = "java.util.Map.Entry", {}⟩

theorem guess_agrees_with_classPath_entry :
    ∃ n, BinaryName.guess "java.util.Map.Entry" = .ok n ∧ n.text = "java/util/Map$Entry" ∧
      importingEntry.binaryNameOf "java.util.Map.Entry".toList = .ok n ∧
      (importingEntry.without "java.util.Map.Entry").resolve "Entry" =
        importingEntry.resolve "Entry" := by
  have hparts : ∀ part ∈ ["java".toList, "util".toList, "Map".toList, "Entry".toList],
      BinaryName.IsPart part := by decide
  obtain ⟨n, marks, hguess, -, -, -, hclass⟩ :=
    guess_agrees_with_classPath (List.cons_ne_nil _ _) hparts
  have hs : importingEntry.Conventional ["java".toList, "util".toList] "Map".toList
      ["Entry".toList] := by
    have hpackages : ∀ p ∈ ["java".toList, "util".toList].inits, p ≠ [] →
        importingEntry.knows (join '.' p) = false := by decide
    exact ⟨by decide, fun p hne hpre => hpackages p ((List.mem_inits p _).mpr hpre) hne, by decide,
      by decide⟩
  obtain ⟨hknown, hresolve⟩ := hclass importingEntry _ _ _ rfl hs
  refine ⟨n, hguess, ?_, hknown, ?_⟩
  · exact (BinaryName.ofString_eq_ok_iff.mp hguess).trans (by decide)
  · refine hresolve "Entry" "Entry".toList [.ofClass "java.util.List"] [] ?_ (by decide) rfl ?_ ?_
    · exact ⟨by decide, by decide, by decide, by decide, by decide⟩
    · unfold Import.Explains
      decide
    · exact ⟨rfl, .inr (.inl ⟨"java.util.Map".toList, by decide⟩)⟩

end Scope

end JvmWeave
