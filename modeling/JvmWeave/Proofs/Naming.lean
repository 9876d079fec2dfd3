import JvmWeave.Proofs.Reading
import JvmWeave.Scope.Shorten

/-!
# Names of types

How the types that expressions mean are written in a scope, one equation for each of their shapes.

The function goes by a list of questions: is the type primitive, is it a variable, which category
does it have.  Each equation answers those that come before its own, so that nothing else has to
open the function.  The types to which none of the questions applies are shown by their full names,
which are given by category (`javaName_eq`).

Besides the equations there is what a name can be made of.  A short name of a class has no character
that its binary name does not have, but for dots.  So brackets in the name of a type are only those
around arguments, and they match (`Denotes.balanced_nameOf`).  The exception that has to be looked
at is a class with `|` in its name: it is shown as a union, with blanks around the mark.
-/

set_option autoImplicit false

namespace JvmWeave

open Text

/-! ## Parts of types -/

namespace JavaType

theorem primitive?_primitive (p : Primitive) : (primitive p).primitive? = some p := by
  cases p <;> rfl

theorem descriptor_of_primitive? {t : JavaType} {p : Primitive} (h : t.primitive? = some p) :
    t.descriptor = (primitive p).descriptor := by
  apply String.toList_injective
  unfold primitive? at h
  split at h
  · next c hc =>
    rw [hc, ← Primitive.ofLetter?_eq_some_iff.mp h]
    cases p <;> rfl
  · cases h

theorem category_of_primitive? {t : JavaType} {p : Primitive} (h : t.primitive? = some p) :
    t.category = .primitive p := by
  unfold category
  rw [descriptor_of_primitive? h]
  cases p <;> rfl

theorem primitive?_of_cons {t : JavaType} {c d : Char} {cs : List Char}
    (h : t.descriptor.toList = c :: d :: cs) : t.primitive? = none := by
  unfold primitive?
  rw [h]

theorem primitive?_of_class {t : JavaType} {n : BinaryName} (h : t.descriptor = n.descriptor) :
    t.primitive? = none := by
  have hd : t.descriptor.toList = 'L' :: (n.text.toList ++ [';']) := by
    rw [h, n.toList_descriptor]
  cases hn : n.text.toList <;> rw [hn] at hd <;> exact primitive?_of_cons hd

theorem primitive?_arrayOf (t : JavaType) : (arrayOf t).primitive? = none := by
  have hd := toList_descriptor_arrayOf t
  unfold primitive?
  rw [hd]
  cases t.descriptor.toList <;> rfl

theorem variableName?_of_signature {t : JavaType} (h : t.signature = none) :
    t.variableName? = none := by
  unfold variableName?
  rw [h]
  rfl

theorem variableName?_arrayOf (t : JavaType) : (arrayOf t).variableName? = none := by
  cases hs : t.signature with
  | none => exact variableName?_of_signature (by simp [arrayOf, hs])
  | some signature =>
    have ha : (arrayOf t).signature.map String.toList = some ('[' :: signature.toList) := by
      simp [arrayOf, hs]
    unfold variableName?
    rw [ha]
    rfl

theorem variableName?_applied (n : BinaryName) (arguments : List TypeArgument) :
    (applied n arguments).variableName? = none := by
  have ha : (applied n arguments).signature.map String.toList = some ('L' :: (n.text.toList ++
      '<' :: (TypeArgument.tokens arguments ++ ['>', ';']))) := by
    simp [applied]
  unfold variableName?
  rw [ha]
  rfl

theorem element?_arrayOf (t : JavaType) : (arrayOf t).element? = some t := by
  have hd := toList_descriptor_arrayOf t
  unfold element?
  rw [hd]
  obtain ⟨descriptor, signature⟩ := t
  cases signature <;> simp [arrayOf, stripPrefix?]

theorem bar_mem_arrayOf {t : JavaType} :
    '|' ∈ (arrayOf t).descriptor.toList ↔ '|' ∈ t.descriptor.toList := by
  rw [toList_descriptor_arrayOf]
  simp

theorem category_arrayOf {t : JavaType} (h : '|' ∉ t.descriptor.toList) :
    (arrayOf t).category = .array :=
  category_array (toList_descriptor_arrayOf t) (mt bar_mem_arrayOf.mp h)

theorem binaryName?_of_class {t : JavaType} {n : BinaryName} (h : t.descriptor = n.descriptor)
    (hn : '|' ∉ n.text.toList) : t.category = .classType ∧ t.binaryName? = some n := by
  have hd : t.descriptor.toList = 'L' :: (n.text.toList ++ [';']) := by
    rw [h, n.toList_descriptor]
  have hb : '|' ∉ t.descriptor.toList := by
    rw [hd]
    simpa using hn
  have hc := category_class hd hb
  refine ⟨hc, ?_⟩
  unfold binaryName?
  rw [if_pos hc, hd, List.tail_cons, List.dropLast_concat, String.ofList_toList,
    BinaryName.ofString_text]
  rfl

end JavaType

/-! ## Equations -/

namespace Scope

/-- The short name of a class. -/
def classNameOf (s : Scope) (n : BinaryName) : List Char :=
  s.shortClassName (replace '$' '.' n.dotted.toList)

/-- A type argument as it is written in the scope. -/
def argumentNameOf (s : Scope) : TypeArgument → String
  | .any => "?"
  | .just u => s.nameOf u
  | .subtypesOf u => "? extends " ++ s.nameOf u
  | .supertypesOf u => "? super " ++ s.nameOf u

theorem nameOf_of_primitive {s : Scope} {t : JavaType} {p : Primitive}
    (h : t.primitive? = some p) : s.nameOf t = p.keyword := by
  rw [nameOf, h]

theorem nameOf_of_variable {s : Scope} {t : JavaType} {name : String} (hp : t.primitive? = none)
    (hv : t.variableName? = some name) : s.nameOf t = name := by
  rw [nameOf, hp, hv]

theorem nameOf_of_element {s : Scope} {t element : JavaType} (hp : t.primitive? = none)
    (hv : t.variableName? = none) (hc : t.category = .array) (he : t.element? = some element) :
    s.nameOf t = s.nameOf element ++ "[]" := by
  rw [nameOf, hp, hv, hc]
  dsimp only
  split
  · next he' =>
    rw [he] at he'
    cases he'
    rfl
  · next he' =>
    rw [he] at he'
    cases he'

theorem nameOf_of_className {s : Scope} {t : JavaType} {name : String} (hp : t.primitive? = none)
    (hv : t.variableName? = none) (hc : t.category = .classType) (hn : t.className? = some name) :
    s.nameOf t = withArgumentList (String.ofList (s.shortClassName (replace '$' '.' name.toList)))
      (t.typeArguments.map s.argumentNameOf) := by
  rw [nameOf, hp, hv, hc]
  dsimp only
  rw [hn]
  dsimp only
  rw [map_attach_eq (g := s.argumentNameOf)]
  rintro ⟨a, _⟩
  cases a <;> rfl

/-- What has no name of its own in a scope is shown by its full name. -/
theorem nameOf_of_unnamed {s : Scope} {t : JavaType} (hp : t.primitive? = none)
    (hv : t.variableName? = none) (ha : t.category = .array → t.element? = none)
    (hc : t.category = .classType → t.className? = none) : s.nameOf t = t.javaName := by
  rw [nameOf, hp, hv]
  dsimp only
  split
  · next h =>
    split
    · next he =>
      rw [ha h] at he
      cases he
    · rfl
  · next h => rw [hc h]
  · rfl

theorem nameOf_typeVariable {s : Scope} {name : String} {bound : JavaType}
    (h : bound.primitive? = none) : s.nameOf (.typeVariable name bound) = name :=
  nameOf_of_variable h (JavaType.variableName?_typeVariable name bound)

theorem nameOf_union {s : Scope} {t : JavaType} (h : '|' ∈ t.descriptor.toList)
    (hp : t.primitive? = none) (hv : t.variableName? = none) : s.nameOf t = t.javaName := by
  have hc := JavaType.category_union h
  apply nameOf_of_unnamed hp hv
  · intro ha
    cases hc.symm.trans ha
  · intro ha
    cases hc.symm.trans ha

theorem nameOf_arrayOf {s : Scope} {t : JavaType} (h : '|' ∉ t.descriptor.toList) :
    s.nameOf (.arrayOf t) = s.nameOf t ++ "[]" :=
  nameOf_of_element (JavaType.primitive?_arrayOf t) (JavaType.variableName?_arrayOf t)
    (JavaType.category_arrayOf h) (JavaType.element?_arrayOf t)

theorem nameOf_class {s : Scope} {t : JavaType} {n : BinaryName} (h : t.descriptor = n.descriptor)
    (hn : '|' ∉ n.text.toList) (hv : t.variableName? = none) :
    s.nameOf t = withArgumentList (String.ofList (s.classNameOf n))
      (t.typeArguments.map s.argumentNameOf) := by
  obtain ⟨hc, hb⟩ := JavaType.binaryName?_of_class h hn
  have hname : t.className? = some n.dotted := by
    unfold JavaType.className?
    rw [hb]
    rfl
  exact nameOf_of_className (JavaType.primitive?_of_class h) hv hc hname

/-! ## Characters -/

theorem mem_of_shorten? {i : Import} {qualified short : List Char} {c : Char}
    (h : i.shorten? qualified = some short) (hc : c ∈ short) : c ∈ qualified ∨ c = '.' := by
  unfold Import.shorten? at h
  obtain ⟨rest, hrest, h⟩ := Option.bind_eq_some_iff.mp h
  have hq := stripPrefix?_eq_some_iff.mp hrest
  have hsimple : ∀ {d : Char}, d ∈ i.simpleName → d ∈ qualified := by
    intro d hd
    rw [hq]
    refine List.mem_append_left _ ?_
    rw [← join_split '.' i.name.toList]
    exact mem_join_of_mem (List.getLast_mem (split_ne_nil _ _)) hd
  split at h
  · have hs := stripPrefix?_eq_some_iff.mp h
    rw [hq, hs]
    exact .inl (by simp [hc])
  · split at h
    · cases h
      exact .inl (hsimple hc)
    · obtain ⟨nested, hn, rfl⟩ := Option.map_eq_some_iff.mp h
      have hs := stripPrefix?_eq_some_iff.mp hn
      rcases List.mem_append.mp hc with hc | hc
      · exact .inl (hsimple hc)
      · rw [hq, hs]
        exact .inl (List.mem_append_right _ hc)

theorem longest?_mem {entries : List (Nat × List Char)} {e : Nat × List Char}
    (h : longest? entries = some e) : e ∈ entries := by
  induction entries generalizing e with
  | nil => cases h
  | cons a rest ih =>
    rw [longest?] at h
    split at h
    · next b hb =>
      split at h
      · cases h
        exact List.mem_cons_of_mem _ (ih hb)
      · cases h
        exact List.mem_cons_self
    · cases h
      exact List.mem_cons_self

theorem mem_shortClassName {s : Scope} {qualified : List Char} {c : Char}
    (h : c ∈ s.shortClassName qualified) : c ∈ qualified ∨ c = '.' := by
  unfold shortClassName at h
  dsimp only at h
  split at h
  · next size short hl =>
    obtain ⟨i, -, hi⟩ := List.mem_filterMap.mp (longest?_mem hl)
    unfold shortening? at hi
    obtain ⟨short', hs, hi⟩ := Option.bind_eq_some_iff.mp hi
    dsimp only at hi
    split at hi
    · cases hi
    · cases hi
      exact mem_of_shorten? hs h
  · exact .inl h

theorem mem_classNameOf {s : Scope} {n : BinaryName} {c : Char} (h : c ∈ s.classNameOf n) :
    c ∈ n.text.toList ∨ c = '.' := by
  rcases mem_shortClassName h with h | h
  · rcases mem_replace h with h | h
    · unfold BinaryName.dotted at h
      rw [String.toList_ofList] at h
      exact mem_replace h
    · exact .inr h
  · exact .inr h

theorem not_mem_classNameOf {s : Scope} {n : BinaryName} {c : Char}
    (hc : BinaryName.isReserved c = true) (hd : c ≠ '.') : c ∉ s.classNameOf n := fun h =>
  (mem_classNameOf h).elim (n.not_mem_text hc) hd

end Scope

/-! ## Unions -/

theorem mem_intercalate {separator : String} {texts : List String} {c : Char}
    (h : c ∈ (String.intercalate separator texts).toList) :
    c ∈ separator.toList ∨ ∃ text ∈ texts, c ∈ text.toList := by
  rw [String.toList_intercalate] at h
  induction texts with
  | nil => cases h
  | cons text texts ih =>
    cases texts with
    | nil => exact .inr ⟨text, List.mem_singleton_self _, by simpa using h⟩
    | cons next texts =>
      rw [List.map_cons, List.map_cons, List.intercalate_cons_cons] at h
      rcases List.mem_append.mp h with h | h
      · rcases List.mem_append.mp h with h | h
        · exact .inr ⟨text, List.mem_cons_self, h⟩
        · exact .inl h
      · exact (ih h).imp_right fun ⟨t, ht, hc⟩ => ⟨t, List.mem_cons_of_mem _ ht, hc⟩

namespace JavaType

theorem mem_className? {t : JavaType} {name : String} {c : Char} (h : t.className? = some name)
    (hc : c ∈ name.toList) : c ∈ t.descriptor.toList ∨ c = '.' := by
  obtain ⟨n, hn, rfl⟩ := Option.map_eq_some_iff.mp h
  unfold binaryName? at hn
  split at hn
  · cases hs : BinaryName.ofString (String.ofList t.descriptor.toList.tail.dropLast) with
    | error e => rw [hs] at hn; cases hn
    | ok m =>
      rw [hs] at hn
      cases hn
      unfold BinaryName.dotted at hc
      rw [String.toList_ofList] at hc
      refine (mem_replace hc).imp_left fun hc => ?_
      rw [BinaryName.ofString_eq_ok_iff.mp hs, String.toList_ofList] at hc
      exact List.mem_of_mem_tail (List.dropLast_sublist _ |>.subset hc)
  · cases hn

/-- The name of a type without generics has no angle brackets but those of its descriptor. -/
theorem not_mem_javaName {c : Char} (hc : c = '<' ∨ c = '>') {t : JavaType}
    (hs : t.signature = none) (h : c ∉ t.descriptor.toList) : c ∉ t.javaName.toList := by
  have hq : c ∉ "?".toList := by rcases hc with rfl | rfl <;> decide
  rw [javaName]
  split
  · exact hq
  · next hcat =>
    intro hm
    rcases mem_intercalate hm with hm | ⟨text, ht, hm⟩
    · revert hm
      rcases hc with rfl | rfl <;> decide
    · obtain ⟨⟨member, hmember⟩, -, rfl⟩ := List.mem_map.mp ht
      -- A member is a piece of the descriptor, whether it is read as a type or stands as it is.
      have hmem : c ∉ member := by
        intro hcm
        rw [← join_split '|' t.descriptor.toList] at h
        exact h (mem_join_of_mem hmember hcm)
      dsimp only at hm
      split at hm
      · refine not_mem_javaName hc rfl ?_ hm
        unfold erased
        rwa [String.toList_ofList]
      · rw [String.toList_ofList] at hm
        exact hmem hm
  · split
    · next element he =>
      rw [String.toList_append]
      intro hm
      rcases List.mem_append.mp hm with hm | hm
      · have hn : element.signature = none ∧ c ∉ element.descriptor.toList := by
          unfold element? at he
          split at he
          · next rest hd =>
            cases he
            rw [hs, String.toList_ofList]
            rw [hd] at h
            exact ⟨rfl, mt (List.mem_cons_of_mem _) h⟩
          · cases he
        exact not_mem_javaName hc hn.1 hn.2 hm
      · revert hm
        rcases hc with rfl | rfl <;> decide
    · exact h
  · rw [variableName?_of_signature hs]
    dsimp only
    have hnil : t.typeArguments.attach = [] :=
      List.attach_eq_nil_iff.mpr (typeArguments_of_signature hs)
    rw [hnil, List.map_nil, withArgumentList, if_pos rfl]
    unfold nestedWithDots
    rw [String.toList_ofList]
    have hdot : c ≠ '.' := by rcases hc with rfl | rfl <;> decide
    intro hm
    have hname := (mem_replace hm).resolve_right hdot
    cases hn : t.className? with
    | none =>
      rw [hn] at hname
      exact h hname
    | some name =>
      rw [hn] at hname
      exact h ((mem_className? hn hname).resolve_right hdot)
  · split
    · next p _ => rcases hc with rfl | rfl <;> cases p <;> decide
    · exact hq
termination_by t.size
decreasing_by
  · exact size_member_lt ‹_› ‹_›
  · exact size_element_lt ‹_›

/-- The text of a member of a union. -/
def memberName (member : List Char) : String :=
  match requireToken .descriptor (String.ofList member) with
  | .ok _ => (erased (String.ofList member)).javaName
  | .error _ => String.ofList member

/-- Full names by category. -/
theorem javaName_eq (t : JavaType) :
    t.javaName =
      match t.category with
      | .value => "?"
      | .union => String.intercalate " | " ((split '|' t.descriptor.toList).map memberName)
      | .array => (t.element?.map fun element => element.javaName ++ "[]").getD t.descriptor
      | .classType => t.variableName?.getD (withArgumentList
          (nestedWithDots (t.className?.getD t.descriptor))
          (t.typeArguments.map TypeArgument.javaName))
      | .primitive _ => (t.primitive?.map Primitive.keyword).getD "?" := by
  rw [javaName]
  split
  · next hc => rw [hc]
  · next hc =>
    rw [hc]
    dsimp only
    rw [map_attach_eq (g := memberName)]
    exact fun _ => rfl
  · next hc =>
    rw [hc]
    dsimp only
    split
    · next he => rw [he]; rfl
    · next he => rw [he]; rfl
  · next hc =>
    rw [hc]
    dsimp only
    split
    · next hv => rw [hv]; rfl
    · next hv =>
      rw [hv, map_attach_eq (g := TypeArgument.javaName)]
      · rfl
      · rintro ⟨a, _⟩
        cases a <;> rfl
  · next hc =>
    rw [hc]
    dsimp only
    cases t.primitive? <;> rfl

theorem javaName_union {t : JavaType} (h : '|' ∈ t.descriptor.toList) :
    t.javaName = String.intercalate " | " ((split '|' t.descriptor.toList).map memberName) := by
  rw [javaName_eq, category_union h]

theorem not_mem_javaName_union {c : Char} (hc : c = '<' ∨ c = '>') {t : JavaType}
    (hd : IsDescriptor t.descriptor.toList) (h : '|' ∈ t.descriptor.toList) :
    c ∉ t.javaName.toList := by
  have he : t.javaName = (erased t.descriptor).javaName :=
    (javaName_union h).trans (javaName_union (t := erased t.descriptor) h).symm
  rw [he]
  exact not_mem_javaName hc rfl (hd.not_mem hc)

/-- The name of a union has a blank inside. -/
theorem exists_javaName_union {t : JavaType} (hd : IsDescriptor t.descriptor.toList)
    (h : '|' ∈ t.descriptor.toList) : ∃ c before after, isBlank c = false ∧
      t.javaName.toList = c :: (before ++ ' ' :: '|' :: after) := by
  obtain ⟨first, rest, he, hfirst⟩ := List.eq_append_cons_of_mem h
  -- The first member lacks the end of the descriptor, so it is shown as it is.
  have hname : memberName first = String.ofList first := by
    unfold memberName requireToken
    rw [String.toList_ofList]
    split
    · next ht =>
      split at ht
      · cases ht
      · next token rest' hr =>
        exact absurd (readToken_eq_ok.mp hr) (hd.scan_ne_ok he _)
    · rfl
  obtain ⟨c, tail, hcons, hblank, -, hbar⟩ := hd.exists_cons
  obtain ⟨before, hb⟩ : ∃ before, first = c :: before := by
    rw [he] at hcons
    cases first with
    | nil => exact absurd (List.cons.inj hcons).1.symm hbar
    | cons d before => exact ⟨before, by rw [(List.cons.inj hcons).1]⟩
  obtain ⟨next, nexts, hs⟩ := List.exists_cons_of_ne_nil (split_ne_nil '|' rest)
  refine ⟨c, before, ' ' :: (String.intercalate " | " ((split '|' rest).map memberName)).toList,
    hblank, ?_⟩
  rw [javaName_union h, he, split_append rest hfirst, hs, List.map_cons, List.map_cons,
    String.intercalate_cons_cons, hname, hb]
  simp

end JavaType

/-! ## Text of names -/

namespace Scope

/-- The names of the arguments with commas between them. -/
def argumentNames (s : Scope) (arguments : List TypeArgument) : List Char :=
  [',', ' '].intercalate (arguments.map fun a => (s.argumentNameOf a).toList)

theorem nameOf_ofBinaryName {s : Scope} {n : BinaryName} (hn : '|' ∉ n.text.toList) :
    (s.nameOf (.ofBinaryName n)).toList = s.classNameOf n := by
  rw [nameOf_class (n := n) rfl hn (JavaType.variableName?_of_signature rfl),
    JavaType.typeArguments_of_signature rfl, List.map_nil, withArgumentList, if_pos rfl,
    String.toList_ofList]

theorem nameOf_applied {s : Scope} {n : BinaryName} {arguments : List TypeArgument}
    (hn : '|' ∉ n.text.toList) (hne : arguments ≠ [])
    (h : ∀ a ∈ arguments, ∀ u, a.type? = some u → s.Denotes true u) :
    (s.nameOf (.applied n arguments)).toList =
      s.classNameOf n ++ '<' :: (s.argumentNames arguments ++ ['>']) := by
  rw [nameOf_class (n := n) rfl hn (JavaType.variableName?_applied _ _),
    Denotes.typeArguments_applied h, withArgumentList, if_neg (by simpa using hne)]
  unfold argumentNames
  simp [String.toList_intercalate, Function.comp_def]

theorem balanced_argumentNameOf {s : Scope} {a : TypeArgument}
    (h : ∀ u, a.type? = some u → Balanced (s.nameOf u).toList) :
    Balanced (s.argumentNameOf a).toList := by
  have hprefix : ∀ {beginning : String}, '<' ∉ beginning.toList → '>' ∉ beginning.toList →
      ∀ u, a.type? = some u → Balanced (beginning ++ s.nameOf u).toList := by
    intro beginning ho hc u hu
    rw [String.toList_append]
    exact (Balanced.of_not_mem ho hc).append (h u hu)
  cases a with
  | any =>
    show Balanced "?".toList
    exact .of_not_mem (by decide) (by decide)
  | just u => exact h u rfl
  | subtypesOf u => exact hprefix (by decide) (by decide) u rfl
  | supertypesOf u => exact hprefix (by decide) (by decide) u rfl

theorem balanced_union {t : JavaType} (hd : IsDescriptor t.descriptor.toList)
    (h : '|' ∈ t.descriptor.toList) : Balanced t.javaName.toList :=
  .of_not_mem (JavaType.not_mem_javaName_union (.inl rfl) hd h)
    (JavaType.not_mem_javaName_union (.inr rfl) hd h)

/-- Brackets match in the names of types. -/
theorem Denotes.balanced_nameOf {s : Scope} {inner : Bool} {t : JavaType}
    (h : s.Denotes inner t) : Balanced (s.nameOf t).toList := by
  have hkeyword : ∀ p : Primitive, Balanced p.keyword.toList := fun p =>
    .of_not_mem (by cases p <;> decide) (by cases p <;> decide)
  have hshort : ∀ n : BinaryName, Balanced (s.classNameOf n) := fun n =>
    .of_not_mem (not_mem_classNameOf rfl (by decide)) (not_mem_classNameOf rfl (by decide))
  induction h with
  | primitive _ p =>
    rw [nameOf_of_primitive (JavaType.primitive?_primitive p)]
    exact hkeyword p
  | @typeVariable inner name bound hn _ _ =>
    -- The bound stands in for the variable, and a primitive one is named by its keyword.
    cases hp : (if inner then JavaType.object else bound).primitive? with
    | some p =>
      rw [nameOf_of_primitive (t := .typeVariable _ _) hp]
      exact hkeyword p
    | none =>
      rw [nameOf_typeVariable hp, String.toList_ofList]
      exact .of_not_mem hn.noOpen hn.noClose
  | classType _ n =>
    by_cases hn : '|' ∈ n.text.toList
    · rw [nameOf_union (JavaType.bar_mem_descriptor.mpr hn) (JavaType.primitive?_of_class rfl)
        (JavaType.variableName?_of_signature rfl)]
      exact balanced_union (JavaType.isDescriptor_ofBinaryName n)
        (JavaType.bar_mem_descriptor.mpr hn)
    · rw [nameOf_ofBinaryName hn]
      exact hshort n
  | @array _ t h ih =>
    by_cases hb : '|' ∈ t.descriptor.toList
    · have hb' := JavaType.bar_mem_arrayOf.mpr hb
      rw [nameOf_union hb' (JavaType.primitive?_arrayOf t) (JavaType.variableName?_arrayOf t)]
      exact balanced_union h.array.isDescriptor hb'
    · rw [nameOf_arrayOf hb, String.toList_append]
      exact ih.append (.of_not_mem (by decide) (by decide))
  | @applied _ n arguments hn hne h ih =>
    rw [nameOf_applied hn hne h]
    refine (hshort n).append (Balanced.enclosed (.intercalate fun name hname => ?_))
    obtain ⟨a, ha, rfl⟩ := List.mem_map.mp hname
    exact balanced_argumentNameOf (ih a ha)

end Scope
end JvmWeave
