import JvmWeave.Proofs.PackageCut
import JvmWeave.Proofs.TypeTree

/-!
# Names with empty parts

A dotted name is cut into packages and classes before anything is checked, and each rule cuts in
its own way.  An empty part that is taken for a package is always refused.  One that is taken for a
class is not, if it is nested in another class or has one nested in it: then the mark `$` next to
it makes a name of it.
-/

set_option autoImplicit false

namespace JvmWeave

open Text

/-! ## Readings -/

namespace Reading

/-- The reading with further classes nested in it. -/
def nest (r : Reading) (nested : List (List Char)) : Reading :=
  ⟨r.package, r.classes ++ nested⟩

theorem text_nest {r : Reading} {nested : List (List Char)} (hr : r.classes ≠ [])
    (hn : nested ≠ []) : (r.nest nested).text = r.text ++ '$' :: join '$' nested := by
  obtain ⟨package, classes⟩ := r
  unfold nest text
  dsimp only at hr ⊢
  rw [join_append hr hn]
  by_cases hp : package = []
  · simp [hp, join]
  · simp [join_append_singleton _ hp]

/-- A sound cut by capital letters has an empty part at its end only, as a nested class. -/
theorem eq_append_nil_of_sound_guessed {parts : List (List Char)} (hs : (guessed parts).Sound)
    (he : [] ∈ parts) :
    ∃ before last, parts = before ++ [last] ++ [[]] ∧ BinaryName.startsUppercase last = true := by
  obtain ⟨hpackage, hclasses⟩ := hs
  have hparts := package_append_classes_guessed parts
  have hcut : guessed ((guessed parts).package ++ (guessed parts).classes) =
      ⟨(guessed parts).package, (guessed parts).classes⟩ := by
    rw [hparts]
  have hfront := ((guessed_append_iff (classes_guessed_ne_nil (List.ne_nil_of_mem he))).mp hcut).2
  have hmem : [] ∈ (guessed parts).classes := by
    rw [← hparts] at he
    refine (List.mem_append.mp he).resolve_left fun hm => ?_
    exact BinaryName.flaw?_nil (hpackage [] hm)
  clear hcut
  generalize (guessed parts).package = package at hparts
  generalize (guessed parts).classes = classes at hparts hclasses hfront hmem
  -- The classes in front of the last are capitalized, so that only the last can be empty.
  obtain ⟨outer, last, rfl⟩ :=
    (List.eq_nil_or_concat' classes).resolve_left (List.ne_nil_of_mem hmem)
  rw [List.dropLast_concat] at hfront
  rcases List.mem_append.mp hmem with hm | hm
  · cases hfront [] hm
  · rw [← List.mem_singleton.mp hm] at hparts hclasses
    rcases List.eq_nil_or_concat' outer with rfl | ⟨front, part, rfl⟩
    · exact absurd hclasses BinaryName.flaw?_nil
    · refine ⟨package ++ front, part, ?_, hfront part (by simp)⟩
      rw [← hparts]
      simp

end Reading

namespace BinaryName

theorem exists_guess_iff {name : List Char} :
    (∃ n, guess (String.ofList name) = .ok n) ↔ (Reading.guessed (split '.' name)).Sound := by
  unfold guess
  simp only [ofString_eq_ok_iff, String.toList_ofList]
  rw [exists_text_iff, joinGuessed_eq_text (split_ne_nil '.' name),
    Reading.flaw?_text_eq_none_iff]

/-- The last part of the name starts with a capital letter. -/
def EndsUppercase (name : List Char) : Prop :=
  startsUppercase ((split '.' name).getLast (split_ne_nil '.' name)) = true

/-- What follows a part depends on the parts in front of the last. -/
theorem joinGuessed_cons_append (part : List Char) (before : List (List Char)) (last : List Char) :
    joinGuessed (part :: (before ++ [last])) =
      part ++ (if (part :: before).all startsUppercase then '$' else '/') ::
        joinGuessed (before ++ [last]) := by
  rw [joinGuessed_cons (by simp), ← List.cons_append, List.dropLast_concat]

theorem joinGuessed_append_last (before : List (List Char)) (last more : List Char) :
    joinGuessed (before ++ [last ++ more]) = joinGuessed (before ++ [last]) ++ more := by
  induction before with
  | nil => rfl
  | cons part before ih =>
    rw [List.cons_append, List.cons_append, joinGuessed_cons_append, joinGuessed_cons_append, ih,
      List.append_assoc, List.cons_append]

theorem joinGuessed_append_nil {before : List (List Char)} {last : List Char}
    (h : startsUppercase last = true) :
    joinGuessed (before ++ [last] ++ [[]]) = joinGuessed (before ++ [last]) ++ ['$'] := by
  induction before with
  | nil => simp [joinGuessed, h]
  | cons part before ih =>
    have hall : (part :: (before ++ [last])).all startsUppercase =
        (part :: before).all startsUppercase := by
      simp [h]
    rw [List.cons_append, List.cons_append, joinGuessed_cons_append, joinGuessed_cons_append, ih,
      hall, List.append_assoc, List.cons_append]

/-- A dot at the end is read as the mark of a nested class, if a capital letter comes before. -/
theorem guess_append_dot {before : List Char} (h : EndsUppercase before) :
    guess (String.ofList (before ++ ['.'])) = guess (String.ofList (before ++ ['$'])) := by
  have hne := split_ne_nil '.' before
  have hdot : split '.' (before ++ ['.']) =
      (split '.' before).dropLast ++ [(split '.' before).getLast hne] ++ [[]] := by
    rw [List.dropLast_append_getLast hne]
    exact split_append_mark _ _ _
  have hdollar : split '.' (before ++ ['$']) =
      (split '.' before).dropLast ++ [(split '.' before).getLast hne ++ ['$']] :=
    split_append_of_not_mem before (by decide)
  unfold guess
  rw [String.toList_ofList, String.toList_ofList, hdot, hdollar, joinGuessed_append_last,
    joinGuessed_append_nil h]

/-- Of the names with an empty part, those that end with a dot behind a capitalized part are read,
    with `$` in place of that dot. -/
theorem exists_guess_of_empty_iff {name : List Char} (he : [] ∈ split '.' name) :
    (∃ n, guess (String.ofList name) = .ok n) ↔ ∃ before n, name = before ++ ['.'] ∧
      EndsUppercase before ∧ guess (String.ofList (before ++ ['$'])) = .ok n := by
  constructor
  · intro h
    obtain ⟨before, last, hparts, hlast⟩ :=
      Reading.eq_append_nil_of_sound_guessed (exists_guess_iff.mp h) he
    obtain ⟨n, hn⟩ := h
    have hsplit : split '.' (join '.' (before ++ [last])) = before ++ [last] := by
      refine split_join (by simp) fun part hm => ?_
      have hpart : part ∈ split '.' name := by
        rw [hparts]
        exact List.mem_append_left _ hm
      exact mark_not_mem_of_mem_split hpart
    have hname : name = join '.' (before ++ [last]) ++ ['.'] := by
      rw [← join_split '.' name, hparts, join_append_singleton _ (by simp)]
    have hends : EndsUppercase (join '.' (before ++ [last])) := by
      unfold EndsUppercase
      simp [hsplit, hlast]
    exact ⟨_, n, hname, hends, by rw [← guess_append_dot hends, ← hname, hn]⟩
  · rintro ⟨before, n, rfl, hbefore, hn⟩
    exact ⟨n, (guess_append_dot hbefore).trans hn⟩

end BinaryName

/-! ## What the rules read -/

namespace Scope

/-- The name of a class in the package of the scope, which keeps no dots. -/
def packageReading (s : Scope) (name : List Char) : Reading :=
  ⟨if s.package = "" then [] else split '.' s.package.toList, split '.' name⟩

/-- The cut of a name that an exact import explains.  Where a class nested in the import is meant,
    the import has to be the name of a class itself. -/
def importedReading (s : Scope) : ImportMatch → Reading
  | .whole imported => s.cut imported
  | .outer imported nested =>
    if (s.cut imported).Sound then (s.cut imported).nest (split '.' nested) else s.cut imported

/-- The cut of a qualified name by the first rule that matches. -/
def reading (s : Scope) (name : List Char) : Reading :=
  match s.exactImport? name with
  | some found => s.importedReading found
  | none =>
    if s.knows (qualify s.package.toList name) then s.packageReading name
    else s.cut ((s.wildcardClass? name).getD name)

theorem exists_classNamed_iff {name : List Char} {r : Reading} :
    (∃ n, classNamed name r.text = .ok n) ↔ r.Sound := by
  simp only [classNamed_eq_ok_iff]
  rw [BinaryName.exists_text_iff, Reading.flaw?_text_eq_none_iff]

theorem exists_binaryNameOf_iff {s : Scope} {qualified : List Char} :
    (∃ n, s.binaryNameOf qualified = .ok n) ↔ (s.cut qualified).Sound := by
  rw [binaryNameOf_eq, exists_classNamed_iff]

theorem binaryInPackage_eq (s : Scope) (name : List Char) :
    s.binaryInPackage name = (s.packageReading name).text := by
  unfold binaryInPackage packageReading Reading.text
  dsimp only
  rw [← join_split_eq_replace '.' '$' name, ← join_split_eq_replace '.' '/' s.package.toList]
  by_cases hp : s.package = ""
  · rw [hp]
    rfl
  · have hjoin : join '/' (split '.' s.package.toList) ≠ [] := by
      rw [join_split_eq_replace]
      simp [replace, hp]
    rw [if_neg hjoin, if_neg hp, join_append_singleton _ (split_ne_nil _ _), List.append_assoc]
    rfl

theorem exists_importedClass_iff {s : Scope} {name : List Char} {found : ImportMatch} :
    (∃ n, s.importedClass name found = .ok n) ↔ (s.importedReading found).Sound := by
  cases found with
  | whole imported => exact exists_binaryNameOf_iff
  | outer imported nested =>
    rw [importedClass, importedReading]
    cases hn : s.binaryNameOf imported with
    | ok outer =>
      dsimp only
      have hs : (s.cut imported).Sound := exists_binaryNameOf_iff.mp ⟨outer, hn⟩
      have htext : outer.text = String.ofList (s.cut imported).text := by
        rw [binaryNameOf_eq, classNamed_eq_ok_iff] at hn
        exact hn
      rw [if_pos hs, htext, String.toList_ofList, ← join_split_eq_replace,
        ← Reading.text_nest (s.classes_cut_ne_nil imported) (split_ne_nil _ _),
        exists_classNamed_iff]
    | error e =>
      have hs : ¬(s.cut imported).Sound := by
        rw [← exists_binaryNameOf_iff, hn]
        simp
      rw [if_neg hs]
      simp [hs]

/-- A qualified name means a class if its reading is the name of one. -/
theorem exists_classOf_iff {s : Scope} {name : List Char} (hd : '.' ∈ name) :
    (∃ n, s.classOf name = .ok n) ↔ (s.reading name).Sound := by
  unfold classOf reading
  cases s.exactImport? name with
  | some found => exact exists_importedClass_iff
  | none =>
    dsimp only
    split
    · rw [binaryInPackage_eq, exists_classNamed_iff]
    · cases s.wildcardClass? name with
      | some qualified => exact exists_binaryNameOf_iff
      | none =>
        dsimp only
        rw [if_neg fun h => h.1 hd]
        exact exists_binaryNameOf_iff

theorem parameter?_eq_none_of_dot {s : Scope} {name : List Char}
    (h : ∀ p ∈ s.typeParameters, '.' ∉ p.name.toList) (hd : '.' ∈ name) :
    s.parameter? (String.ofList name) = none := by
  apply List.find?_eq_none.mpr
  intro p hp hname
  have he : p.name = String.ofList name := of_decide_eq_true hname
  apply h p hp
  rwa [he, String.toList_ofList]

/-- A qualified name means something if it has no blanks and its reading is the name of a class. -/
theorem exists_evaluateName_iff {s : Scope} {name : List Char}
    (hs : ∀ p ∈ s.typeParameters, '.' ∉ p.name.toList) (hd : '.' ∈ name) :
    (∃ t, s.evaluateName [] (String.ofList name) = .ok t) ↔
      (∀ c ∈ name, isBlank c = false) ∧ (s.reading name).Sound := by
  rw [← exists_classOf_iff hd]
  constructor
  · rintro ⟨t, ht⟩
    obtain ⟨⟨-, hblank⟩, ⟨n, -, hn, -⟩ | ⟨p, bound, hp, -⟩⟩ := evaluateName_eq_ok ht
    · rw [String.toList_ofList] at hblank hn
      exact ⟨hblank, n, hn⟩
    · rw [parameter?_eq_none_of_dot hs hd] at hp
      cases hp
  · rintro ⟨hblank, n, hn⟩
    have hnone := parameter?_eq_none_of_dot hs hd
    exact ⟨_, namesClass_iff.mp ⟨List.ne_nil_of_mem hd, hblank, hnone, hn⟩⟩

theorem exists_error_iff {ε α : Type} {result : Except ε α} :
    (∃ e, result = .error e) ↔ ¬∃ a, result = .ok a := by
  cases result <;> simp

/-- A name with an empty part is refused, unless the part is read as a class in or around another.
    By capital letters alone that is a last part behind a dot that follows a capitalized part. -/
theorem resolve_emptySegment_iff {s : Scope}
    (hs : ∀ p ∈ s.typeParameters, '.' ∉ p.name.toList) {name : List Char}
    (he : [] ∈ split '.' name) (ho : '<' ∉ name) (hc : '>' ∉ name)
    (ha : stripSuffix? ['[', ']'] name = none) :
    ((∃ e, BinaryName.guess (String.ofList name) = .error e) ↔
      ¬∃ before n, name = before ++ ['.'] ∧ BinaryName.EndsUppercase before ∧
        BinaryName.guess (String.ofList (before ++ ['$'])) = .ok n) ∧
    ∀ text : String, trim text.toList = name → ((∃ e, s.resolve text = .error e) ↔
      ¬(name ≠ [] ∧ (∀ c ∈ name, isBlank c = false) ∧ (s.reading name).Sound)) := by
  constructor
  · rw [exists_error_iff, BinaryName.exists_guess_of_empty_iff he]
  · intro text htext
    have hempty : '.' ∉ name → name = [] := by
      intro hd
      rw [split_of_not_mem hd, List.mem_singleton] at he
      exact he.symm
    have hkeyword : Primitive.ofKeyword? (String.ofList name) = none := by
      by_cases hd : '.' ∈ name
      · exact ofKeyword?_of_dot hd
      · rw [hempty hd]
        decide
    have hresolve : s.resolve text = s.evaluateName [] (String.ofList name) := by
      rw [← typeOf_named ha hkeyword (splitGeneric_of_plain ho hc), ← htext]
      rfl
    rw [hresolve, exists_error_iff]
    by_cases hd : '.' ∈ name
    · rw [exists_evaluateName_iff hs hd]
      simp [List.ne_nil_of_mem hd]
    · refine iff_of_true ?_ fun h => h.1 (hempty hd)
      rintro ⟨t, ht⟩
      apply (evaluateName_eq_ok ht).1.1
      rw [hempty hd]

/-- Between two dots no capital letter helps. -/
theorem resolve_emptySegment_between :
    (∃ e, BinaryName.guess "a..B" = .error e) ∧ ∃ e, Scope.empty.resolve " a..B" = .error e := by
  obtain ⟨hguess, hresolve⟩ := @resolve_emptySegment_iff .empty (by decide) "a..B".toList
    (by decide) (by decide) (by decide) (by decide)
  refine ⟨hguess.mpr ?_, (hresolve " a..B" (by decide)).mpr fun h => ?_⟩
  · rintro ⟨before, n, hname, -⟩
    have hlast := congrArg List.getLast? hname
    rw [List.getLast?_concat] at hlast
    cases hlast
  · exact absurd h.2.2 (by decide)

/-- A dot at the end can be read as a mark. -/
theorem resolve_trailingDot :
    [] ∈ split '.' "a.B.".toList ∧ (∃ n, BinaryName.guess "a.B." = .ok n) ∧
      Scope.empty.resolve "a.B." = .ok (.erased "La/B$;") := by
  have hclass : Scope.empty.classOf "a.B.".toList = .ok ⟨"a/B$", by decide⟩ := by decide
  have hplain : PlainName "a.B.".toList :=
    ⟨by decide, forall_mem_of_all (by decide), by decide, by decide, by decide, by decide⟩
  refine ⟨by decide, ?_, ?_⟩
  · exact ⟨⟨"a/B$", by decide⟩, BinaryName.ofString_eq_ok_iff.mpr (by decide)⟩
  · show Scope.empty.resolve (String.ofList "a.B.".toList) = _
    rw [resolve_of_plain hplain (by decide), hclass]
    rfl

end Scope

end JvmWeave
