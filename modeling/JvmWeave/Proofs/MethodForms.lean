import JvmWeave.Proofs.MethodReading

/-!
# The two forms of a method type

A method type is read back from what is written for it, if no name in it is cut where the text of a
method is.

There are two places for a cut.  The parameters end at the first `)` and the result at the first
`^`, both outside of brackets.  No token ends with either, and no check keeps them out of names.  So
the condition is on names (`NamesAvoid`), and on those outside of type arguments only, since what is
in brackets is not cut.  For a generic form it is enough to know it of the erasure, which has the
same names outside of brackets, and of the names of type variables, which erasure does away with.

For a method type that was read, the condition is nearly for free: the parameters were cut at the
first `)`, so there is none in them.  Only the `^` has to be kept out of the descriptor, since a
descriptor is not cut there when it is read, and the signature that is written for it would be.

What a method throws is lost in reading, and if the signature lists fewer or more parameters than
the descriptor then its own are.  In all other respects the signature that is written is the one
that was read.
-/

set_option autoImplicit false

namespace JvmWeave

open Text

/-! ## Types that are not cut -/

/-- A generic form is not cut where its erasure is not, names of type variables apart. -/
theorem IsToken.uncut {mark : Char} (hm : mark = ')' ∨ mark = '^')
    {signature descriptor : List Char} (h : IsToken .signature signature)
    (he : erasesTo signature descriptor = true) (hd : mark ∉ descriptor)
    (hv : ∀ name, elementOf signature = 'T' :: (name ++ [';']) →
      mark ∉ name ∧ '<' ∉ name ∧ '>' ∉ name) : Uncut mark 0 signature := by
  induction h generalizing descriptor with
  | primitive p =>
    cases p <;> rcases hm with rfl | rfl <;> exact ⟨by decide, rfl⟩
  | @typeVariable _ name =>
    obtain ⟨hname, hopen, hclose⟩ := hv name rfl
    have hb : Balanced ('T' :: (name ++ [';'])) :=
      .of_not_mem (by simp [hopen]) (by simp [hclose])
    refine hb.uncut_of_not_mem ?_
    rcases hm with rfl | rfl <;> simp [hname]
  | @classType body hbody =>
    have hb : Balanced body := (closes_zero_iff.mp hbody).balanced
    rw [JavaType.erasesTo_class_iff hb] at he
    subst he
    simp only [List.mem_cons, List.mem_append, not_or] at hd
    have hend : Uncut mark 0 [';'] := ⟨fun h => hd.2.2.1 h.1.symm, rfl⟩
    exact ⟨fun h => hd.1 h.1.symm, (hb.uncut hm hd.2.1).append hend⟩
  | @array token _ ih =>
    rcases JavaType.head?_of_erasesTo he with hhead | ⟨hhead, -⟩
    · obtain ⟨inner, rfl⟩ := List.head?_eq_some_iff.mp hhead.symm
      rw [Scope.Denotes.erasesTo_cons_bracket] at he
      obtain ⟨hne, hinner⟩ := not_or.mp (mt List.mem_cons.mpr hd)
      exact ⟨fun h => hne h.1.symm, ih he hinner hv⟩
    · cases hhead

namespace JavaType

/-- Outside of type arguments no name has one of the marks: neither that of the class, nor that of
the type variable. -/
def NamesAvoid (marks : List Char) (t : JavaType) : Prop :=
  (∀ c ∈ marks, c ∉ t.descriptor.toList) ∧ t.VariableAvoids marks

instance (marks : List Char) : DecidablePred (NamesAvoid marks) := fun t =>
  have : Decidable (∀ c ∈ marks, c ∉ t.descriptor.toList) := List.decidableBAll _ marks
  inferInstanceAs (Decidable (_ ∧ _))

theorem IsValid.uncut_descriptor {t : JavaType} (h : t.IsValid) {mark : Char}
    (hd : mark ∉ t.descriptor.toList) : Uncut mark 0 t.descriptor.toList := by
  obtain ⟨ht, -⟩ := isValid_iff.mp h
  refine Balanced.uncut_of_not_mem (ht.balanced fun name hn => ?_) hd
  exact absurd (congrArg List.head? hn) ht.head_ne_variable

theorem IsValid.uncut_full {t : JavaType} (h : t.IsValid) {marks : List Char}
    (ha : '<' ∈ marks ∧ '>' ∈ marks) (hn : t.NamesAvoid marks) {mark : Char}
    (hm : mark = ')' ∨ mark = '^') (hmem : mark ∈ marks) : Uncut mark 0 t.full.toList := by
  have hd : mark ∉ t.descriptor.toList := hn.1 mark hmem
  cases hs : t.signature with
  | none =>
    rw [full_of_none hs]
    exact h.uncut_descriptor hd
  | some s =>
    obtain ⟨ht, -, he⟩ := (isValid_iff.mp h).2 s hs
    have hfull : t.full = s := by
      unfold full
      rw [hs]
      rfl
    rw [hfull]
    refine IsToken.uncut hm ht he hd fun name hname => ?_
    have hv := hn.2 name (by rwa [hfull])
    exact ⟨hv mark hmem, hv '<' ha.1, hv '>' ha.2⟩

end JavaType

namespace MethodType

/-! ## Type parameters -/

theorem cutBalanced_cons (c : Char) (depth : Nat) (cs : List Char) :
    cutBalanced depth (c :: cs) =
      if c = '>' ∧ depth = 1 then some ([c], cs)
      else (cutBalanced (depthAfter depth c) cs).map fun r => (c :: r.1, r.2) :=
  rfl

/-- A group ends where its brackets are closed, whatever follows. -/
theorem cutBalanced_append {depth : Nat} {text group rest : List Char}
    (h : cutBalanced depth text = some (group, rest)) :
    text = group ++ rest ∧ ∀ after, cutBalanced depth (group ++ after) = some (group, after) := by
  induction text generalizing depth group with
  | nil => cases h
  | cons c cs ih =>
    rw [cutBalanced_cons] at h
    split at h
    · next hc =>
      cases h
      refine ⟨rfl, fun after => ?_⟩
      rw [List.singleton_append, cutBalanced_cons, if_pos hc]
    · next hc =>
      obtain ⟨⟨inner, after⟩, hr, he⟩ := Option.map_eq_some_iff.mp h
      cases he
      obtain ⟨rfl, hagain⟩ := ih hr
      refine ⟨rfl, fun after => ?_⟩
      rw [List.cons_append, cutBalanced_cons, if_neg hc, hagain]
      rfl

theorem uncut_of_cutBalanced {mark : Char} {depth : Nat} {text group rest : List Char}
    (hd : 0 < depth) (h : cutBalanced depth text = some (group, rest)) :
    Uncut mark depth group := by
  induction text generalizing depth group with
  | nil => cases h
  | cons c cs ih =>
    have hopen : ¬(c = mark ∧ depth = 0) := fun he => hd.ne' he.2
    rw [cutBalanced_cons] at h
    split at h
    · next hc =>
      cases h
      refine ⟨hopen, ?_⟩
      rw [hc.1, hc.2]
      rfl
    · next hc =>
      obtain ⟨⟨inner, after⟩, hr, he⟩ := Option.map_eq_some_iff.mp h
      cases he
      refine ⟨hopen, ih ?_ hr⟩
      -- A bracket that closes the last open one would have ended the group.
      unfold depthAfter
      split
      · omega
      · split
        · next hclose =>
          have : depth ≠ 1 := fun hone => hc ⟨hclose, hone⟩
          omega
        · exact hd

/-- Type parameters are found in front of whatever does not start with a bracket. -/
theorem splitTypeParameters_append {signature rest : List Char} {group : Option (List Char)}
    (h : splitTypeParameters signature = .ok (group, rest)) :
    signature = group.getD [] ++ rest ∧ Uncut '^' 0 (group.getD []) ∧
      ∀ after, after.head? ≠ some '<' →
        splitTypeParameters (group.getD [] ++ after) = .ok (group, after) := by
  unfold splitTypeParameters at h
  split at h
  · next hopen =>
    split at h
    · next inner after hcut =>
      cases h
      obtain ⟨cs, rfl⟩ := List.head?_eq_some_iff.mp hopen
      obtain ⟨happend, hagain⟩ := cutBalanced_append hcut
      rw [cutBalanced_cons, if_neg (by decide)] at hcut
      obtain ⟨⟨group, rest⟩, hr, he⟩ := Option.map_eq_some_iff.mp hcut
      cases he
      refine ⟨happend, ⟨by decide, uncut_of_cutBalanced (by decide) hr⟩, fun after _ => ?_⟩
      unfold splitTypeParameters
      rw [if_pos (by rfl)]
      dsimp only [Option.getD_some]
      rw [hagain]
    · cases h
  · cases h
    refine ⟨rfl, rfl, fun after hafter => ?_⟩
    unfold splitTypeParameters
    exact if_neg hafter

/-! ## What is written -/

theorem toList_descriptor (m : MethodType) :
    m.descriptor.toList = textOf (m.parameters.map (·.descriptor)) m.result.descriptor := by
  simp [descriptor, textOf, List.flatMap_map]

/-- The generic form without the type parameters. -/
def genericText (m : MethodType) : List Char :=
  textOf (m.parameters.map (·.full)) m.result.full

theorem isGeneric_eq_false_iff {m : MethodType} :
    m.isGeneric = false ↔
      m.typeParameters = none ∧ ∀ t ∈ m.result :: m.parameters, t.signature = none := by
  simp [isGeneric, and_assoc]

theorem toList_signature? {m : MethodType} {signature : String}
    (h : m.signature? = some signature) :
    signature.toList = (m.typeParameters.getD "").toList ++ m.genericText := by
  unfold signature? at h
  split at h
  · cases h
    simp [genericText, textOf, List.flatMap_map]
  · cases h

theorem withoutThrown_of_none {text : List Char} (h : cutTopLevel '^' 0 text = none) :
    withoutThrown text = text := by
  unfold withoutThrown
  rw [h]

/-- Nothing that is left is cut again. -/
theorem cutTopLevel_withoutThrown (text : List Char) :
    cutTopLevel '^' 0 (withoutThrown text) = none := by
  cases h : cutTopLevel '^' 0 text with
  | none => rwa [withoutThrown_of_none h]
  | some r =>
    unfold withoutThrown
    rw [h]
    exact (cutTopLevel_eq_some_iff.mp h).2.cutTopLevel_eq_none

theorem withoutThrown_append {before after : List Char} (h : Uncut '^' 0 before) :
    withoutThrown (before ++ after) = before ++ withoutThrown after := by
  unfold withoutThrown
  rw [h.cutTopLevel_append]
  cases cutTopLevel '^' 0 after <;> rfl

theorem cutTopLevel_textOf_iff {parameters : List String} {result : String}
    (h : Uncut ')' 0 (parameters.flatMap String.toList)) :
    cutTopLevel '^' 0 (textOf parameters result) = none ↔
      cutTopLevel '^' 0 (parameters.flatMap String.toList) = none ∧
        cutTopLevel '^' 0 result.toList = none := by
  have hcons {c : Char} (hc : c = '(' ∨ c = ')') (cs : List Char) :
      cutTopLevel '^' 0 (c :: cs) = none ↔ cutTopLevel '^' 0 cs = none := by
    rcases hc with rfl | rfl
    all_goals
      rw [cutTopLevel_cons, if_neg (by decide), Option.map_eq_none_iff]
      rfl
  rw [textOf, hcons (.inl rfl), h.cutTopLevel_append_eq_none_iff, hcons (.inr rfl)]

/-- A text is cut where it was put together. -/
theorem splitMethod_textOf {dialect : Dialect} {m : MethodType} {f : JavaType → String}
    (h : ∀ t ∈ m.result :: m.parameters, IsToken dialect (f t).toList)
    (hu : Uncut ')' 0 ((m.parameters.map f).flatMap String.toList)) :
    splitMethod dialect (textOf (m.parameters.map f) (f m.result)) =
      .ok (m.parameters.map f, f m.result) := by
  obtain ⟨hresult, hparameters⟩ := List.forall_mem_cons.mp h
  refine splitMethod_eq_ok_iff.mpr ⟨?_, hu, rfl⟩
  exact List.forall_mem_cons.mpr ⟨hresult, List.forall_mem_map.mpr hparameters⟩

/-- Both forms are read back. -/
theorem parse_of_uncut {m : MethodType} {group : Option (List Char)}
    (hall : ∀ t ∈ m.result :: m.parameters, t.IsValid)
    (hgroup : m.typeParameters = group.map String.ofList)
    (hagain : ∀ after, after.head? ≠ some '<' →
      splitTypeParameters (group.getD [] ++ after) = .ok (group, after))
    (hdescriptors : Uncut ')' 0 ((m.parameters.map (·.descriptor)).flatMap String.toList))
    (hfull : Uncut ')' 0 ((m.parameters.map (·.full)).flatMap String.toList))
    (hthrown : cutTopLevel '^' 0 m.genericText = none) :
    parse m.descriptor m.signature? = .ok m := by
  have hd : splitMethod .descriptor m.descriptor.toList =
      .ok (m.parameters.map (·.descriptor), m.result.descriptor) := by
    rw [toList_descriptor]
    exact splitMethod_textOf (fun t ht => (JavaType.isValid_iff.mp (hall t ht)).1) hdescriptors
  have hs : splitMethod .signature m.genericText =
      .ok (m.parameters.map (·.full), m.result.full) :=
    splitMethod_textOf (fun t ht => (hall t ht).isToken_full) hfull
  cases hsig : m.signature? with
  | none =>
    have hgeneric : m.isGeneric = false := by
      unfold signature? at hsig
      split at hsig
      · cases hsig
      · next h => exact Bool.eq_false_iff.mpr h
    obtain ⟨hnone, hplain⟩ := isGeneric_eq_false_iff.mp hgeneric
    exact parse_none_eq_ok_iff.mpr ⟨hd, hnone, fun t ht => ⟨hall t ht, hplain t ht⟩⟩
  | some signature =>
    have hparameters : (m.typeParameters.getD "").toList = group.getD [] := by
      rw [hgroup]
      cases group <;> simp
    refine parse_some_eq_ok_iff.mpr ⟨group, m.genericText, m.parameters.map (·.full), hd, ?_,
      hgroup, by rw [withoutThrown_of_none hthrown, hs], hall, by simp⟩
    rw [toList_signature? hsig, hparameters]
    exact hagain _ (by simp [genericText, textOf])

/-! ## What was read -/

theorem descriptor_of_parse {descriptor : String} {signature : Option String} {m : MethodType}
    (h : parse descriptor signature = .ok m) : m.descriptor = descriptor := by
  obtain ⟨-, -, hd⟩ := splitMethod_eq_ok_iff.mp (splitMethod_of_parse h)
  refine String.toList_injective ?_
  rw [toList_descriptor, hd]

/-- The generic form of what was read has the parameters that were listed, or else those of the
descriptor, and is not cut again. -/
theorem uncut_of_parse {descriptor signature : String} {m : MethodType}
    (hd : '^' ∉ descriptor.toList) (h : parse descriptor (some signature) = .ok m) :
    Uncut ')' 0 ((m.parameters.map (·.full)).flatMap String.toList) ∧
      cutTopLevel '^' 0 m.genericText = none := by
  obtain ⟨-, hlist, hdescriptor⟩ := splitMethod_eq_ok_iff.mp (splitMethod_of_parse h)
  obtain ⟨_, rest, tokens, -, -, -, hsplit, -, hcount⟩ := parse_some_eq_ok_iff.mp h
  obtain ⟨-, htokens, hrest⟩ := splitMethod_eq_ok_iff.mp hsplit
  have hthrown := cutTopLevel_withoutThrown rest
  split at hcount
  · subst hcount
    rw [hrest] at hthrown
    exact ⟨htokens, hthrown⟩
  · have hsame : m.parameters.map (·.full) = m.parameters.map (·.descriptor) :=
      List.map_congr_left fun t ht => JavaType.full_of_none (hcount t ht)
    rw [hrest, cutTopLevel_textOf_iff htokens] at hthrown
    unfold genericText
    rw [hsame, cutTopLevel_textOf_iff hlist]
    refine ⟨hlist, cutTopLevel_of_not_mem (fun hm => hd ?_) 0, hthrown.2⟩
    rw [hdescriptor]
    simp only [textOf, List.mem_cons, List.mem_append]
    exact .inr (.inl hm)

/-- The number of parameters that the text of a method type lists. -/
def countParameters (dialect : Dialect) (text : List Char) : Option Nat :=
  (splitMethod dialect text).toOption.map fun parts => parts.1.length

theorem countParameters_of_parse {descriptor : String} {signature : Option String} {m : MethodType}
    (h : parse descriptor signature = .ok m) :
    countParameters .descriptor descriptor.toList = some m.parameters.length := by
  unfold countParameters
  rw [splitMethod_of_parse h]
  simp [Except.toOption]

/-- What is read is read again from what is written for it. -/
theorem parse_of_parse {descriptor : String} {signature : Option String} {m : MethodType}
    (hd : '^' ∉ descriptor.toList) (h : parse descriptor signature = .ok m) :
    parse m.descriptor m.signature? = .ok m := by
  cases signature with
  | none =>
    obtain ⟨-, hnone, hplain⟩ := parse_none_eq_ok_iff.mp h
    have hsig : m.signature? = none := by
      unfold signature?
      rw [isGeneric_eq_false_iff.mpr ⟨hnone, fun t ht => (hplain t ht).2⟩]
      rfl
    rw [descriptor_of_parse h, hsig]
    exact h
  | some text =>
    obtain ⟨-, hlist, -⟩ := splitMethod_eq_ok_iff.mp (splitMethod_of_parse h)
    obtain ⟨group, rest, tokens, -, hgroup, hparameters, -, hall, -⟩ := parse_some_eq_ok_iff.mp h
    obtain ⟨-, -, hagain⟩ := splitTypeParameters_append hgroup
    obtain ⟨hfull, hthrown⟩ := uncut_of_parse hd h
    exact parse_of_uncut hall hparameters hagain hlist hfull hthrown

/-- If all parameters are listed, only the thrown types are lost. -/
theorem signature_of_parse {descriptor text : String} {m : MethodType}
    (h : parse descriptor (some text) = .ok m) {group : Option (List Char)} {rest : List Char}
    (hgroup : splitTypeParameters text.toList = .ok (group, rest))
    (hcount : countParameters .signature (withoutThrown rest) =
      countParameters .descriptor descriptor.toList)
    {written : String} (hw : m.signature? = some written) :
    written.toList = withoutThrown text.toList := by
  rw [countParameters_of_parse h] at hcount
  obtain ⟨_, _, tokens, -, hagain, hparameters, hsplit, -, htokens⟩ := parse_some_eq_ok_iff.mp h
  cases hgroup.symm.trans hagain
  have hl : tokens.length = m.parameters.length := by
    unfold countParameters at hcount
    rw [hsplit] at hcount
    exact Option.some.inj hcount
  rw [if_pos hl] at htokens
  obtain ⟨-, -, hrest⟩ := splitMethod_eq_ok_iff.mp hsplit
  obtain ⟨happend, hu, -⟩ := splitTypeParameters_append hgroup
  have hprefix : (m.typeParameters.getD "").toList = group.getD [] := by
    rw [hparameters]
    cases group <;> simp
  rw [toList_signature? hw, happend, withoutThrown_append hu, hrest, hprefix, genericText, htokens]

theorem parse_of_namesAvoid {parameters : List JavaType} {result : JavaType}
    (h : ∀ t ∈ result :: parameters, t.IsValid ∧ t.NamesAvoid ['(', ')', '<', '>', '^']) :
    parse (MethodType.mk none parameters result).descriptor
      (MethodType.mk none parameters result).signature? = .ok ⟨none, parameters, result⟩ := by
  obtain ⟨hresult, hparameters⟩ := List.forall_mem_cons.mp h
  have hangle : '<' ∈ ['(', ')', '<', '>', '^'] ∧ '>' ∈ ['(', ')', '<', '>', '^'] := by decide
  have hfull {mark : Char} (hm : mark = ')' ∨ mark = '^')
      (hmem : mark ∈ ['(', ')', '<', '>', '^']) :
      Uncut mark 0 ((parameters.map (·.full)).flatMap String.toList) := by
    rw [List.flatMap_map]
    exact .flatMap fun t ht => (hparameters t ht).1.uncut_full hangle (hparameters t ht).2 hm hmem
  have hdescriptors : Uncut ')' 0 ((parameters.map (·.descriptor)).flatMap String.toList) := by
    rw [List.flatMap_map]
    exact .flatMap fun t ht =>
      (hparameters t ht).1.uncut_descriptor ((hparameters t ht).2.1 ')' (by decide))
  refine @parse_of_uncut ⟨none, parameters, result⟩ none (fun t ht => (h t ht).1) rfl
    (fun after ha => if_neg ha) hdescriptors (hfull (.inl rfl) (by decide)) ?_
  refine (cutTopLevel_textOf_iff (hfull (.inl rfl) (by decide))).mpr ⟨?_, ?_⟩
  · exact (hfull (.inr rfl) (by decide)).cutTopLevel_eq_none
  · exact (hresult.1.uncut_full hangle hresult.2 (.inr rfl) (by decide)).cutTopLevel_eq_none

/-- Method types are read back from their two forms, those that were read as those that were put
together. -/
theorem parse_forms :
    (∀ (descriptor : String) (signature : Option String) (m : MethodType),
      '^' ∉ descriptor.toList → parse descriptor signature = .ok m →
        m.descriptor = descriptor ∧ parse m.descriptor m.signature? = .ok m ∧
        ∀ (text : String) (group : Option (List Char)) (rest : List Char) (written : String),
          signature = some text → splitTypeParameters text.toList = .ok (group, rest) →
          countParameters .signature (withoutThrown rest) =
            countParameters .descriptor descriptor.toList →
          m.signature? = some written → written.toList = withoutThrown text.toList) ∧
    ∀ (parameters : List JavaType) (result : JavaType),
      (∀ t ∈ result :: parameters, t.IsValid ∧ t.NamesAvoid ['(', ')', '<', '>', '^']) →
        parse (MethodType.mk none parameters result).descriptor
          (MethodType.mk none parameters result).signature? = .ok ⟨none, parameters, result⟩ := by
  refine ⟨fun descriptor signature m hd h => ?_, fun _ _ => parse_of_namesAvoid⟩
  refine ⟨descriptor_of_parse h, parse_of_parse hd h, ?_⟩
  rintro text group rest written rfl hgroup hcount hw
  exact signature_of_parse h hgroup hcount hw

/-! ## A method that throws -/

/-- A method that takes an element out of a list. -/
def takesElement (typeParameters : Option String) : MethodType :=
  ⟨typeParameters, [⟨"Ljava/util/List;", some "Ljava/util/List<TT;>;"⟩, .primitive .int],
    .typeVariable "T" .object⟩

theorem splitTypeParameters_takesElement :
    splitTypeParameters
      "<T:Ljava/lang/Object;>(Ljava/util/List<TT;>;I)TT;^Ljava/io/IOException;".toList =
        .ok (some "<T:Ljava/lang/Object;>".toList,
          "(Ljava/util/List<TT;>;I)TT;^Ljava/io/IOException;".toList) := by decide

theorem splitMethod_takesElement :
    splitMethod .signature
      (withoutThrown "(Ljava/util/List<TT;>;I)TT;^Ljava/io/IOException;".toList) =
        .ok (["Ljava/util/List<TT;>;", "I"], "TT;") :=
  splitMethod_eq_ok_iff.mpr (by decide)

theorem parse_takesElement :
    parse "(Ljava/util/List;I)Ljava/lang/Object;"
      (some "<T:Ljava/lang/Object;>(Ljava/util/List<TT;>;I)TT;^Ljava/io/IOException;") =
        .ok (takesElement (some "<T:Ljava/lang/Object;>")) := by
  refine parse_some_eq_ok_iff.mpr ⟨_, _, _, ?_, splitTypeParameters_takesElement, rfl,
    splitMethod_takesElement, ?_, ?_⟩
  · exact splitMethod_eq_ok_iff.mpr (by decide)
  · decide
  · decide

/-- The thrown type is lost and all else is read back, with type parameters and without. -/
theorem parse_forms_takesElement :
    (takesElement (some "<T:Ljava/lang/Object;>")).signature? =
        some "<T:Ljava/lang/Object;>(Ljava/util/List<TT;>;I)TT;" ∧
      parse "(Ljava/util/List;I)Ljava/lang/Object;"
        (some "<T:Ljava/lang/Object;>(Ljava/util/List<TT;>;I)TT;") =
          .ok (takesElement (some "<T:Ljava/lang/Object;>")) ∧
      "<T:Ljava/lang/Object;>(Ljava/util/List<TT;>;I)TT;".toList =
        withoutThrown
          "<T:Ljava/lang/Object;>(Ljava/util/List<TT;>;I)TT;^Ljava/io/IOException;".toList ∧
      parse "(Ljava/util/List;I)Ljava/lang/Object;" (some "(Ljava/util/List<TT;>;I)TT;") =
        .ok (takesElement none) := by
  obtain ⟨hread, hwritten⟩ := parse_forms
  obtain ⟨hd, hagain, hthrown⟩ := hread _ _ _ (by decide) parse_takesElement
  have hsig : (takesElement (some "<T:Ljava/lang/Object;>")).signature? =
      some "<T:Ljava/lang/Object;>(Ljava/util/List<TT;>;I)TT;" := by decide
  have hplain : (takesElement none).signature? = some "(Ljava/util/List<TT;>;I)TT;" := by decide
  refine ⟨hsig, ?_, ?_, ?_⟩
  · rwa [hd, hsig] at hagain
  · have hcount : countParameters .signature
        (withoutThrown "(Ljava/util/List<TT;>;I)TT;^Ljava/io/IOException;".toList) =
          countParameters .descriptor "(Ljava/util/List;I)Ljava/lang/Object;".toList := by
      rw [countParameters_of_parse parse_takesElement, countParameters, splitMethod_takesElement]
      rfl
    exact hthrown _ _ _ _ rfl splitTypeParameters_takesElement hcount hsig
  · have hnone := hwritten (takesElement none).parameters (takesElement none).result (by decide)
    change parse (takesElement none).descriptor (takesElement none).signature? = _ at hnone
    rwa [hplain] at hnone

end MethodType
end JvmWeave
