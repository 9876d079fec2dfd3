import JvmWeave.Proofs.NestedScope
import JvmWeave.Proofs.TypeTree

/-!
# The name that an error is about

A written type fails because of a name in it.  Of several names that fail it is the first one that
the error is about: the error leads through one level for each application around that name, from
the outside in, and ends with what is wrong with the name alone.  A level tells what else its
application would have been made of.
-/

set_option autoImplicit false

namespace JvmWeave

open Text

/-! ## The names of a type -/

structure Application where
  head : RawName
  gap : Gap
  arguments : ArgumentTrees

/-- The application as a type. -/
def Application.tree (a : Application) : TypeTree :=
  .applied a.head a.gap a.arguments

/-- A name in a type, with the applications around it.  The outermost comes first, and the last is
    the one that the name is the head of, if it has arguments. -/
structure Occurrence where
  raw : RawName
  around : List Application

/-- The same name with one more application around it. -/
def Occurrence.inside (a : Application) (o : Occurrence) : Occurrence :=
  ⟨o.raw, a :: o.around⟩

mutual

/-- The names of the type, as they are written from left to right. -/
def TypeTree.occurrences : TypeTree → List Occurrence
  | .keyword _ => []
  | .name raw => [⟨raw, []⟩]
  | .array element _ => element.occurrences
  | .applied head gap arguments =>
    (⟨head, []⟩ :: arguments.occurrences).map (Occurrence.inside ⟨head, gap, arguments⟩)

def ArgumentTree.occurrences : ArgumentTree → List Occurrence
  | .any => []
  | .just type | .subtypesOf type | .supertypesOf type => type.occurrences

def ArgumentTrees.occurrences : ArgumentTrees → List Occurrence
  | .last _ argument _ => argument.occurrences
  | .more _ argument _ rest => argument.occurrences ++ rest.occurrences

end

/-- The arguments without the gaps between them. -/
def ArgumentTrees.toList : ArgumentTrees → List ArgumentTree
  | .last _ argument _ => [argument]
  | .more _ argument _ rest => argument :: rest.toList

mutual

/-- The names with arguments mean classes that take arguments, as far as they mean anything. -/
def TypeTree.HeadsTakeArguments (s : Scope) : TypeTree → Prop
  | .keyword _ | .name _ => True
  | .array element _ => element.HeadsTakeArguments s
  | .applied head _ arguments =>
    (∀ t, head.eval s = some t → t.TakesArguments) ∧ arguments.HeadsTakeArguments s

def ArgumentTree.HeadsTakeArguments (s : Scope) : ArgumentTree → Prop
  | .any => True
  | .just type | .subtypesOf type | .supertypesOf type => type.HeadsTakeArguments s

def ArgumentTrees.HeadsTakeArguments (s : Scope) : ArgumentTrees → Prop
  | .last _ argument _ => argument.HeadsTakeArguments s
  | .more _ argument _ rest => argument.HeadsTakeArguments s ∧ rest.HeadsTakeArguments s

end

/-! ## What an error tells -/

/-- The type argument, from the type that its text means. -/
def ArgumentTree.resolve (s : Scope) : ArgumentTree → Except ResolveError TypeArgument
  | .any => .ok .any
  | .just type => (s.resolve (String.ofList type.text)).map .just
  | .subtypesOf type => (s.resolve (String.ofList type.text)).map .subtypesOf
  | .supertypesOf type => (s.resolve (String.ofList type.text)).map .supertypesOf

namespace Application

variable (s : Scope) (a : Application)

/-- The types of the arguments in front of the first argument that fails.  A wildcard without a
    bound has none. -/
def types : List JavaType :=
  ((a.arguments.toList.map (ArgumentTree.resolve s)).takeWhile Except.isOk).filterMap
    fun result => result.toOption.bind Argument.type?

/-- The failure of the application for something that failed within it. -/
def failure (cause : ResolveError) : ResolveError :=
  .failedApplication (String.ofList a.tree.text) (a.head.eval s) (a.types s) cause

end Application

/-- What is wrong, if anything is. -/
def failureOf {ε α : Type} : Except ε α → Option ε
  | .ok _ => none
  | .error e => some e

@[simp]
theorem failureOf_map {ε α β : Type} (f : α → β) (result : Except ε α) :
    failureOf (result.map f) = failureOf result := by
  cases result <;> rfl

theorem failureOf_eq_some_iff {ε α : Type} {result : Except ε α} {e : ε} :
    failureOf result = some e ↔ result = .error e := by
  cases result <;> simp [failureOf]

/-- The error of a type in which this name fails first. -/
def Occurrence.failure? (s : Scope) (o : Occurrence) : Option ResolveError :=
  (failureOf (s.resolve (String.ofList o.raw.text))).map fun own =>
    o.around.foldr (Application.failure s) own

@[simp]
theorem Occurrence.isSome_failure? (s : Scope) (o : Occurrence) :
    (o.failure? s).isSome = (o.raw.eval s).isNone := by
  unfold failure? RawName.eval
  cases s.resolve (String.ofList o.raw.text) <;> rfl

/-- One more application around all names adds one level to the error. -/
theorem Occurrence.findSome?_inside (s : Scope) (a : Application) (names : List Occurrence) :
    (names.map (inside a)).findSome? (failure? s) =
      (names.findSome? (failure? s)).map (a.failure s) := by
  have hinside : failure? s ∘ inside a = Option.map (a.failure s) ∘ failure? s := by
    funext o
    simp [failure?, inside, Function.comp_def]
  rw [List.findSome?_map, List.map_findSome?, hinside]

/-! ## Applications -/

theorem untilError_fst {ε α : Type} (results : List (Except ε α)) :
    (untilError results).1 = (results.takeWhile Except.isOk).filterMap Except.toOption := by
  induction results with
  | nil => rfl
  | cons result results ih =>
    cases result with
    | error e => rfl
    | ok a =>
      rw [List.takeWhile_cons_of_pos rfl]
      simp [untilError, ih, Except.toOption]

theorem untilError_snd {ε α : Type} (results : List (Except ε α)) :
    (untilError results).2 = results.findSome? failureOf := by
  induction results with
  | nil => rfl
  | cons result results ih =>
    cases result with
    | error e => rfl
    | ok a =>
      rw [List.findSome?_cons, failureOf, ← ih]
      rfl

/-- An application fails with its head, and else with the first argument that fails. -/
theorem failureOf_applyHead {text : String} {head : Except ResolveError JavaType}
    {results : List (Except ResolveError TypeArgument)}
    (h : ∀ t, head = .ok t → t.TakesArguments) :
    failureOf (Scope.applyHead text head (untilError results)) =
      ((failureOf head).or (results.findSome? failureOf)).map
        (.failedApplication text head.toOption
          ((untilError results).1.filterMap Argument.type?)) := by
  rw [← untilError_snd]
  cases head with
  | error cause => rfl
  | ok t =>
    cases he : (untilError results).2 with
    | some cause => simp [Scope.applyHead, he, failureOf, Except.toOption]
    | none =>
      obtain ⟨u, hu⟩ := (h t rfl).exists_withArguments (untilError results).1
      simp [Scope.applyHead, he, hu, failureOf]

/-- The arguments in the text are those of the tree. -/
theorem ArgumentTrees.splitArguments_text (arguments : ArgumentTrees) :
    splitArguments arguments.text = arguments.toList.map ArgumentTree.text := by
  cases arguments with
  | last before argument after =>
    rw [ArgumentTrees.text, (splitArguments_gaps argument.readable before after).1]
    rfl
  | more before argument after rest =>
    rw [ArgumentTrees.text, (splitArguments_gaps argument.readable before after).2,
      rest.splitArguments_text]
    rfl

/-- The text of an argument is read as the tree says. -/
theorem ArgumentTree.argumentOf_eq_resolve (s : Scope) (argument : ArgumentTree) :
    s.argumentOf argument.text = argument.resolve s := by
  cases argument with
  | any => rfl
  | just type =>
    rw [text, Scope.argumentOf_eq, splitWildcard_of_head type.readable.2, resolve,
      s.resolve_ofList type.readable.1.solid]
  | subtypesOf type =>
    rw [text, Scope.argumentOf_eq, (splitWildcard_wildcardText type.readable.1).1, resolve,
      s.resolve_ofList type.readable.1.solid]
  | supertypesOf type =>
    rw [text, Scope.argumentOf_eq, (splitWildcard_wildcardText type.readable.1).2, resolve,
      s.resolve_ofList type.readable.1.solid]

/-- An application is resolved by its head and its arguments, each alone. -/
theorem Application.resolve_eq (s : Scope) (a : Application) :
    s.resolve (String.ofList a.tree.text) =
      Scope.applyHead (String.ofList a.tree.text) (s.resolve (String.ofList a.head.text))
        (untilError (a.arguments.toList.map (ArgumentTree.resolve s))) := by
  rw [s.resolve_ofList a.tree.readable.1.solid, s.resolve_ofList a.head.solid, s.typeOf_raw, tree,
    TypeTree.text, s.typeOf_appliedText a.head a.gap a.arguments.balanced,
    a.arguments.splitArguments_text, List.map_map]
  simp [Function.comp_def, ArgumentTree.argumentOf_eq_resolve]

theorem Application.failureOf_resolve {s : Scope} {a : Application}
    (h : ∀ t, a.head.eval s = some t → t.TakesArguments) :
    failureOf (s.resolve (String.ofList a.tree.text)) =
      ((failureOf (s.resolve (String.ofList a.head.text))).or
        ((a.arguments.toList.map (ArgumentTree.resolve s)).findSome? failureOf)).map
          (a.failure s) := by
  rw [a.resolve_eq, failureOf_applyHead fun t ht => h t (toOption_eq_some_iff.mpr ht)]
  unfold failure types
  rw [untilError_fst, List.filterMap_filterMap]
  rfl

/-! ## The first failure -/

-- By the recursion of the trees.  Arrays add no level, and each application adds one.
mutual

/-- A type fails with the first of its names that fails. -/
theorem TypeTree.failureOf_resolve {s : Scope} : ∀ {tree : TypeTree}, tree.HeadsTakeArguments s →
    failureOf (s.resolve (String.ofList tree.text)) =
      tree.occurrences.findSome? (Occurrence.failure? s)
  | .keyword p, _ => by
    obtain ⟨t, -, ht⟩ := TypeTree.resolve_text s (.keyword p) trivial
    rw [ht]
    rfl
  | .name raw, _ => by
    rw [TypeTree.occurrences, List.findSome?_singleton]
    simp [Occurrence.failure?, TypeTree.text]
  | .array element gap, h => by
    rw [TypeTree.HeadsTakeArguments] at h
    rw [TypeTree.occurrences, ← TypeTree.failureOf_resolve h,
      s.resolve_ofList (TypeTree.array element gap).readable.1.solid,
      s.resolve_ofList element.readable.1.solid, TypeTree.text,
      Scope.typeOf_array (stripSuffix?_eq_some_iff.mpr rfl),
      element.readable.1.solid.trimEnd_gap, failureOf_map]
  | .applied head gap arguments, h => by
    rw [TypeTree.HeadsTakeArguments] at h
    have happlied := Application.failureOf_resolve (a := ⟨head, gap, arguments⟩) h.1
    rw [ArgumentTrees.failureOf_resolve h.2] at happlied
    have hhead : failureOf (s.resolve (String.ofList head.text)) =
        Occurrence.failure? s ⟨head, []⟩ := by simp [Occurrence.failure?]
    rw [TypeTree.occurrences, Occurrence.findSome?_inside, List.findSome?_cons, ← hhead]
    refine happlied.trans ?_
    cases failureOf (s.resolve (String.ofList head.text)) <;> rfl

theorem ArgumentTree.failureOf_resolve {s : Scope} : ∀ {argument : ArgumentTree},
    argument.HeadsTakeArguments s →
      failureOf (argument.resolve s) = argument.occurrences.findSome? (Occurrence.failure? s)
  | .any, _ => rfl
  | .just type, h | .subtypesOf type, h | .supertypesOf type, h => by
    rw [ArgumentTree.resolve, failureOf_map]
    exact TypeTree.failureOf_resolve h

theorem ArgumentTrees.failureOf_resolve {s : Scope} : ∀ {arguments : ArgumentTrees},
    arguments.HeadsTakeArguments s →
      (arguments.toList.map (ArgumentTree.resolve s)).findSome? failureOf =
        arguments.occurrences.findSome? (Occurrence.failure? s)
  | .last before argument after, h => by
    rw [ArgumentTrees.HeadsTakeArguments] at h
    rw [ArgumentTrees.occurrences, ← ArgumentTree.failureOf_resolve h]
    simp [ArgumentTrees.toList]
  | .more before argument after rest, h => by
    rw [ArgumentTrees.HeadsTakeArguments] at h
    rw [ArgumentTrees.occurrences, List.findSome?_append, ← ArgumentTree.failureOf_resolve h.1,
      ← ArgumentTrees.failureOf_resolve h.2, ArgumentTrees.toList, List.map_cons,
      List.findSome?_cons]
    cases failureOf (argument.resolve s) <;> rfl

end

/-! ## Errors of names -/

/-- The expression has no arguments. -/
def TypeExpr.Unapplied : TypeExpr → Prop
  | .array element => element.Unapplied
  | .applied .. => False
  | _ => True

theorem open_not_mem_of_splitGeneric {text head : List Char} {arguments : Option (List Char)}
    (h : splitGeneric text = .ok (head, arguments)) : '<' ∉ head := by
  cases arguments with
  | none =>
    obtain ⟨rfl, ho, -⟩ := splitGeneric_none h
    exact ho
  | some list =>
    intro hm
    unfold splitGeneric at h
    split at h
    · split at h <;> cases h
    · split at h
      · split at h
        · cases h
        · cases h
          simpa using List.mem_takeWhile_imp (mem_of_mem_trimEnd hm)
      · cases h

theorem TypeExpr.unapplied_parse {text : List Char} (h : '<' ∉ text) : (parse text).Unapplied := by
  induction hl : text.length using Nat.strong_induction_on generalizing text with
  | _ length ih =>
    subst hl
    cases ha : stripSuffix? ['[', ']'] text with
    | some element =>
      have he : text = element ++ ['[', ']'] := stripSuffix?_eq_some_iff.mp ha
      rw [parse_array ha, Unapplied]
      exact ih _ (length_trimEnd_lt (by simp) ha) (fun hm => h (by simp [he, mem_of_mem_trimEnd hm])) rfl
    | none =>
      cases hk : Primitive.ofKeyword? (String.ofList text) with
      | some p =>
        rw [parse_keyword ha hk]
        trivial
      | none =>
        rw [parse_generic ha hk]
        rcases hg : splitGeneric text with cause | ⟨head, _ | list⟩
        · trivial
        · trivial
        · exact absurd (open_mem_of_splitGeneric hg) h

namespace Scope

theorem causes_of_classNamed {name binary : List Char} {e : ResolveError}
    (h : classNamed name binary = .error e) : e.causes = [] := by
  unfold classNamed at h
  split at h
  · cases h
  · cases h
    rfl

theorem causes_of_binaryNameOf {s : Scope} {qualified : List Char} {e : ResolveError}
    (h : s.binaryNameOf qualified = .error e) : e.causes = [] := by
  unfold binaryNameOf at h
  split at h <;> exact causes_of_classNamed h

theorem causes_of_classOf {s : Scope} {name : List Char} {e : ResolveError}
    (h : s.classOf name = .error e) : e.causes = [] := by
  unfold classOf at h
  split at h
  · next found _ =>
    cases found with
    | whole imported => exact causes_of_binaryNameOf h
    | outer imported nested =>
      rw [importedClass] at h
      split at h
      · exact causes_of_classNamed h
      · next he =>
        cases h
        exact causes_of_binaryNameOf he
  · split at h
    · exact causes_of_classNamed h
    · split at h
      · exact causes_of_binaryNameOf h
      · split at h
        · cases h
          rfl
        · exact causes_of_binaryNameOf h

-- By the recursion of evaluation, as a bound is evaluated like any other name.
mutual

/-- Without arguments nothing else is the cause of an error. -/
theorem causes_of_evaluate {s : Scope} {visiting : List String} {e : TypeExpr}
    {error : ResolveError} (he : e.Unapplied) (h : s.evaluate visiting e = .error error) :
    error.causes = [] := by
  match e, he, h with
  | .primitive p, _, h =>
    rw [evaluate] at h
    cases h
  | .malformed cause, _, h =>
    rw [evaluate] at h
    cases h
    rfl
  | .array element, he, h =>
    rw [TypeExpr.Unapplied] at he
    rw [evaluate] at h
    split at h
    · cases h
    · next hcause =>
      cases h
      exact causes_of_evaluate he hcause
  | .named name, _, h =>
    rw [evaluate] at h
    exact causes_of_evaluateName h
  | .applied text head arguments, he, _ => cases he
termination_by (s.unvisited visiting, sizeOf e)
decreasing_by
  · exact Prod.Lex.right _ (by simp only [TypeExpr.array.sizeOf_spec]; omega)
  · exact Prod.Lex.right _ (by simp only [TypeExpr.named.sizeOf_spec]; omega)

theorem causes_of_evaluateName {s : Scope} {visiting : List String} {name : String}
    {error : ResolveError} (h : s.evaluateName visiting name = .error error) :
    error.causes = [] := by
  rw [evaluateName] at h
  split at h
  · cases h
    rfl
  · split at h
    · next hp =>
      cases hc : s.classOf name.toList with
      | ok n =>
        rw [hc] at h
        cases h
      | error e =>
        rw [hc] at h
        cases h
        exact causes_of_classOf hc
    · next p hp =>
      split at h
      · cases h
      · split at h
        · cases h
          rfl
        · next hv =>
          split at h
          · cases h
            rfl
          · next head arguments hg =>
            cases hb : s.evaluate (name :: visiting) (TypeExpr.parse head) with
            | ok bound =>
              rw [hb] at h
              cases h
            | error e =>
              rw [hb] at h
              cases h
              exact causes_of_evaluate
                (TypeExpr.unapplied_parse (open_not_mem_of_splitGeneric hg)) hb
      · cases h
        rfl
termination_by (s.unvisited visiting, 0)
decreasing_by exact Prod.Lex.left _ _ (unvisited_cons_lt ‹_› ‹_›)

end

end Scope

/-- The error of a name has no other error behind it. -/
theorem RawName.causes_of_resolve {s : Scope} {raw : RawName} {e : ResolveError}
    (h : s.resolve (String.ofList raw.text) = .error e) : e.causes = [] := by
  rw [s.resolve_ofList raw.solid, s.typeOf_raw] at h
  exact Scope.causes_of_evaluateName h

/-! ## The levels of an error -/

namespace Application

/-- The error is one of the application, with what the application would have been made of. -/
def Level (s : Scope) (a : Application) (level : ResolveError) : Prop :=
  ∃ cause, level = .failedApplication (String.ofList a.tree.text) (a.head.eval s) (a.types s) cause

/-- The error leads through the applications from the outside in. -/
theorem exists_levels (s : Scope) {own : ResolveError} (h : own.causes = []) :
    ∀ around : List Application, ∃ levels,
      around.foldr (failure s) own :: (around.foldr (failure s) own).causes = levels ++ [own] ∧
        List.Forall₂ (Level s) around levels
  | [] => ⟨[], by simp [h], .nil⟩
  | a :: around => by
    obtain ⟨levels, he, hlevels⟩ := exists_levels s h around
    refine ⟨a.failure s (around.foldr (failure s) own) :: levels, ?_, .cons ⟨_, rfl⟩ hlevels⟩
    rw [List.cons_append, ← he]
    rfl

end Application

/-- The first name that fails decides: the type fails exactly if one of its names does, and its
    error leads through one level for each application around the first of them and ends with the
    error of that name. -/
theorem TypeTree.resolve_fails_at_first (s : Scope) (tree : TypeTree)
    (h : tree.HeadsTakeArguments s) :
    ((∃ e, s.resolve (String.ofList tree.text) = .error e) ↔
      ∃ o ∈ tree.occurrences, o.raw.eval s = none) ∧
    ∀ e, s.resolve (String.ofList tree.text) = .error e → ∃ o own levels,
      tree.occurrences.find? (fun o => (o.raw.eval s).isNone) = some o ∧
      s.resolve (String.ofList o.raw.text) = .error own ∧
      e :: e.causes = levels ++ [own] ∧
      List.Forall₂ (Application.Level s) o.around levels := by
  have hfails := TypeTree.failureOf_resolve h
  constructor
  · calc (∃ e, s.resolve (String.ofList tree.text) = .error e)
      _ ↔ (failureOf (s.resolve (String.ofList tree.text))).isSome := by
        simp [Option.isSome_iff_exists, failureOf_eq_some_iff]
      _ ↔ ∃ o ∈ tree.occurrences, (o.failure? s).isSome := by
        rw [hfails, List.findSome?_isSome_iff]
      _ ↔ ∃ o ∈ tree.occurrences, o.raw.eval s = none := by simp
  · intro e he
    rw [failureOf_eq_some_iff.mpr he] at hfails
    obtain ⟨before, o, after, hsplit, ho, hbefore⟩ := List.findSome?_eq_some_iff.mp hfails.symm
    obtain ⟨own, hown, hfold⟩ := Option.map_eq_some_iff.mp ho
    obtain ⟨levels, hlevels, hall⟩ := Application.exists_levels s
      (RawName.causes_of_resolve (failureOf_eq_some_iff.mp hown)) o.around
    refine ⟨o, own, levels, ?_, failureOf_eq_some_iff.mp hown, ?_, hall⟩
    · rw [List.find?_eq_some_iff_append]
      refine ⟨?_, before, after, hsplit, fun b hb => ?_⟩
      · rw [← o.isSome_failure?, ho]
        rfl
      · rw [← b.isSome_failure?, hbefore b hb]
        rfl
    · rw [← hfold]
      exact hlevels

/-- A class of the default package. -/
def missingName : RawName :=
  ⟨"Missing".toList, by decide, by decide, forall_mem_of_all (by decide)⟩

/-- A map in a map, in which one name has no meaning. -/
def missingTree (gap : Gap) : TypeTree :=
  .applied mapName gap (.more gap (.just (.name stringName)) gap
    (.last gap (.subtypesOf (.array (.applied mapName gap (.more gap .any gap
      (.last gap (.just (.name missingName)) gap))) gap)) gap))

theorem resolve_missingName : Scope.empty.resolve "Missing" =
    .error (.ambiguousDefaultPackage "Missing") := by
  have hclass : Scope.empty.classOf missingName.text =
      .error (.ambiguousDefaultPackage "Missing") := by decide
  show Scope.empty.resolve (String.ofList missingName.text) = _
  rw [Scope.resolve_of_plain missingName.plainName (by decide), hclass]
  rfl

theorem resolve_fails_at_first_missing :
    (missingTree ⟨[], List.forall_mem_nil _⟩).HeadsTakeArguments .empty ∧ ∃ e,
      Scope.empty.resolve "java.util.Map<java.lang.String,? extends java.util.Map<?,Missing>[]>" =
        .error e ∧
      e.causes.length = 2 ∧ e.causes.getLast? = some (.ambiguousDefaultPackage "Missing") := by
  obtain ⟨hmap, hstring⟩ := eval_mapTree_names
  have hmissing : missingName.eval .empty = none := by
    show (Scope.empty.resolve "Missing").toOption = none
    rw [resolve_missingName]
    rfl
  have hheads : (missingTree ⟨[], List.forall_mem_nil _⟩).HeadsTakeArguments .empty := by
    simp [missingTree, TypeTree.HeadsTakeArguments, ArgumentTrees.HeadsTakeArguments,
      ArgumentTree.HeadsTakeArguments, hmap]
    decide
  obtain ⟨hfails, hfirst⟩ := TypeTree.resolve_fails_at_first .empty _ hheads
  obtain ⟨e, he⟩ := hfails.mpr (by
    simp [missingTree, TypeTree.occurrences, ArgumentTrees.occurrences, ArgumentTree.occurrences,
      Occurrence.inside, hmissing])
  obtain ⟨o, own, levels, hfind, hown, hchain, hlevels⟩ := hfirst e he
  simp [missingTree, TypeTree.occurrences, ArgumentTrees.occurrences, ArgumentTree.occurrences,
      Occurrence.inside, hmap, hstring, hmissing] at hfind
  subst hfind
  have howned : own = .ambiguousDefaultPackage "Missing" :=
    Except.error.inj (hown.symm.trans resolve_missingName)
  subst howned
  have htext : String.ofList (missingTree ⟨[], List.forall_mem_nil _⟩).text =
      "java.util.Map<java.lang.String,? extends java.util.Map<?,Missing>[]>" := by decide
  refine ⟨hheads, e, htext ▸ he, ?_⟩
  obtain ⟨outer, inner, rfl⟩ := List.length_eq_two.mp hlevels.length_eq.symm
  have hcauses : e.causes = [inner, .ambiguousDefaultPackage "Missing"] :=
    (List.cons.inj hchain).2
  simp [hcauses]

end JvmWeave
