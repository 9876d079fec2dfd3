import JvmWeave.Proofs.ValidType

/-!
# Arguments of the innermost class

The generic form of a class can have type arguments behind each part of its name.  Reading takes
those of the last part that has any, be it the innermost class or one around it, while writing looks
whether they end the class.  Both agree exactly if the innermost class is the last part with
arguments, or if nothing is read at all (`typeArguments_innermost_iff`).
-/

set_option autoImplicit false

namespace JvmWeave

open Text

/-! ## Types that tokens stand for -/

namespace JavaType

theorem isClassBody_eraseClass {body : List Char} (h : ClassBody body) :
    IsClassBody .descriptor (eraseClass 0 body) := by
  induction h with
  | nil => simp [IsClassBody, eraseClass]
  | @char c cs ho hc hs _ ih =>
    obtain ⟨hsemi, hopen, hclose⟩ := ih
    rw [eraseClass, if_neg ho, if_neg hc, if_pos rfl]
    simp only [IsClassBody, List.mem_cons, not_or]
    split
    · exact ⟨⟨by decide, hsemi⟩, ⟨by decide, hopen⟩, by decide, hclose⟩
    · exact ⟨⟨Ne.symm hs, hsemi⟩, ⟨Ne.symm ho, hopen⟩, Ne.symm hc, hclose⟩
  | group hi _ ih =>
    rw [eraseClass, if_pos rfl, hi.eraseClass_append, eraseClass, if_neg (by decide), if_pos rfl]
    exact ih

/-- Every token has a descriptor that it fits. -/
theorem exists_genericErasure? {token : List Char} (h : IsToken .signature token) :
    ∃ descriptor, Scope.Denotes.genericErasure? token = some descriptor ∧
      IsToken .descriptor descriptor ∧ erasesTo token descriptor = true := by
  induction h with
  | primitive p => exact ⟨[p.letter], by cases p <;> rfl, .primitive p, by cases p <;> rfl⟩
  | @typeVariable _ name =>
    refine ⟨BinaryName.object.descriptor.toList, rfl, ?_, ?_⟩
    · exact (isDescriptor_ofBinaryName .object).isToken
    · rw [BinaryName.toList_descriptor]
      rfl
  | @classType body hb =>
    have hbody := closes_zero_iff.mp hb
    refine ⟨_, erasure?_of_balanced hbody.balanced, .classType (isClassBody_eraseClass hbody), ?_⟩
    exact (erasesTo_class_iff hbody.balanced).mpr rfl
  | array _ ih =>
    obtain ⟨descriptor, hg, hd, he⟩ := ih
    refine ⟨'[' :: descriptor, ?_, hd.array, (Scope.Denotes.erasesTo_cons_bracket _ _).trans he⟩
    rw [Scope.Denotes.genericErasure?_cons_bracket, hg]
    rfl

/-- Every token stands for a type that has it as its generic form. -/
theorem exists_ofGeneric? {token : List Char} (h : IsToken .signature token) :
    ∃ t, ofGeneric? token = some t ∧ t.full.toList = token := by
  obtain ⟨descriptor, hg, hd, he⟩ := exists_genericErasure? h
  have hof {t : JavaType}
      (ht : ofSignature (String.ofList descriptor) (String.ofList token) = .ok t) :
      ofGeneric? token = some t := by
    rw [Scope.Denotes.ofGeneric?_eq, hg, Option.bind_some, ht]
    rfl
  by_cases hsame : String.ofList token = String.ofList descriptor
  · refine ⟨erased (String.ofList descriptor), hof (ofSignature_eq_ok_iff.mpr ?_), ?_⟩
    · rw [if_pos hsame, String.toList_ofList, String.toList_ofList]
      exact ⟨hd, h, rfl⟩
    · rw [← hsame]
      exact String.toList_ofList
  · refine ⟨⟨String.ofList descriptor, some (String.ofList token)⟩,
      hof (ofSignature_eq_ok_iff.mpr ?_), String.toList_ofList⟩
    rw [if_neg hsame, String.toList_ofList, String.toList_ofList]
    exact ⟨hd, h, he, rfl⟩

end JavaType

/-- The argument is what the text stands for, and is written as the text. -/
structure Argument.IsReadAs (w : Argument (List Char)) (a : TypeArgument) : Prop where
  read : TypeArgument.ofToken? w.text = some a
  written : a.written = w

/-- Every complete argument stands for one. -/
theorem Argument.IsComplete.exists_isReadAs {w : Argument (List Char)} (h : w.IsComplete) :
    ∃ a, w.IsReadAs a := by
  have hread {a : TypeArgument} (hw : a.written = w)
      (ha : ∀ t, a.type? = some t → JavaType.ofGeneric? t.full.toList = some t) : w.IsReadAs a := by
    subst hw
    exact ⟨TypeArgument.ofToken?_written h ha, rfl⟩
  cases w with
  | any => exact ⟨.any, hread rfl nofun⟩
  | just token =>
    obtain ⟨t, hg, rfl⟩ := JavaType.exists_ofGeneric? (h _ rfl)
    exact ⟨.just t, hread rfl fun _ ht => Option.some.inj ht ▸ hg⟩
  | subtypesOf token =>
    obtain ⟨t, hg, rfl⟩ := JavaType.exists_ofGeneric? (h _ rfl)
    exact ⟨.subtypesOf t, hread rfl fun _ ht => Option.some.inj ht ▸ hg⟩
  | supertypesOf token =>
    obtain ⟨t, hg, rfl⟩ := JavaType.exists_ofGeneric? (h _ rfl)
    exact ⟨.supertypesOf t, hread rfl fun _ ht => Option.some.inj ht ▸ hg⟩

theorem Argument.forall₂_isReadAs {ws : List (Argument (List Char))}
    (h : ∀ w ∈ ws, w.IsComplete) :
    List.Forall₂ Argument.IsReadAs ws ((ws.map text).filterMap TypeArgument.ofToken?) := by
  induction ws with
  | nil => exact .nil
  | cons w ws ih =>
    obtain ⟨hw, hws⟩ := List.forall_mem_cons.mp h
    obtain ⟨a, ha⟩ := hw.exists_isReadAs
    rw [List.map_cons, List.filterMap_cons_some ha.read]
    exact .cons ha (ih hws)

theorem Argument.eq_of_forall₂_isReadAs {w : Argument (List Char)} {a : TypeArgument}
    {arguments : List TypeArgument} (h : List.Forall₂ Argument.IsReadAs [w] arguments)
    (ha : TypeArgument.ofToken? w.text = some a) : arguments = [a] := by
  obtain ⟨b, bs, hb, hbs, rfl⟩ := List.forall₂_cons_left_iff.mp h
  rw [List.forall₂_nil_left_iff.mp hbs, Option.some.inj (hb.read.symm.trans ha)]

/-! ## Classes in sections -/

/-- A part of the name of a class, with the type arguments behind it. -/
structure ClassSection where
  name : List Char
  arguments : List (Argument (List Char))

namespace ClassSection

def text (s : ClassSection) : List Char :=
  s.name ++ '<' :: (s.arguments.flatMap Argument.text ++ ['>'])

/-- The type arguments are complete, and there are brackets around them and in them only. -/
structure WellFormed (s : ClassSection) : Prop where
  plainName : '<' ∉ s.name ∧ '>' ∉ s.name
  complete : ∀ a ∈ s.arguments, a.IsComplete
  /-- There are no brackets in the names of type variables. -/
  plainVariable : ∀ a ∈ s.arguments, ∀ token ∈ a.type?, isVariableSignature token = true →
    '<' ∉ token ∧ '>' ∉ token

instance (a : Argument (List Char)) : Decidable a.IsComplete :=
  inferInstanceAs (Decidable (∀ token ∈ a.type?, _))

instance : DecidablePred WellFormed := fun s =>
  decidable_of_iff
    (('<' ∉ s.name ∧ '>' ∉ s.name) ∧ (∀ a ∈ s.arguments, a.IsComplete) ∧
      ∀ a ∈ s.arguments, ∀ token ∈ a.type?, isVariableSignature token = true →
        '<' ∉ token ∧ '>' ∉ token)
    ⟨fun ⟨hn, hc, hv⟩ => ⟨hn, hc, hv⟩, fun ⟨hn, hc, hv⟩ => ⟨hn, hc, hv⟩⟩

namespace WellFormed

variable {s : ClassSection}

theorem balanced_name (h : s.WellFormed) : Balanced s.name :=
  .of_not_mem h.plainName.1 h.plainName.2

theorem balanced_arguments (h : s.WellFormed) :
    Balanced (s.arguments.flatMap Argument.text) := by
  refine .flatMap fun a ha => ?_
  have htype {token : List Char} (ht : token ∈ a.type?) : Balanced token := by
    refine (h.complete a ha token ht).balanced fun name hname => ?_
    have hvariable : isVariableSignature token = true := by simp [isVariableSignature, hname]
    obtain ⟨ho, hc⟩ := h.plainVariable a ha token ht hvariable
    have hsub : ∀ c ∈ name, c ∈ token := by
      intro c hc
      have helement : c ∈ elementOf token := by simp [hname, hc]
      exact (List.dropWhile_sublist _).subset helement
    exact ⟨mt (hsub _) ho, mt (hsub _) hc⟩
  cases a with
  | any => exact .of_not_mem (by decide) (by decide)
  | just token => exact htype rfl
  | subtypesOf token => exact .char (by decide) (by decide) (htype rfl)
  | supertypesOf token => exact .char (by decide) (by decide) (htype rfl)

theorem balanced_text (h : s.WellFormed) : Balanced s.text :=
  h.balanced_name.append h.balanced_arguments.enclosed

end WellFormed
end ClassSection

/-- The generic form of a class, cut behind each list of type arguments. -/
structure ClassText where
  sections : List ClassSection
  /-- What stands behind all type arguments. -/
  rest : List Char

namespace ClassText

def text (c : ClassText) : List Char :=
  'L' :: (c.sections.flatMap ClassSection.text ++ (c.rest ++ [';']))

/-- The last type arguments that are written. -/
def lastArguments (c : ClassText) : List (Argument (List Char)) :=
  (c.sections.getLast?.map ClassSection.arguments).getD []

/-- The type arguments of the innermost class, which has none if its name goes on behind the last
    ones. -/
def innermost (c : ClassText) : List (Argument (List Char)) :=
  if c.rest = [] then c.lastArguments else []

structure WellFormed (c : ClassText) : Prop where
  sections : ∀ s ∈ c.sections, s.WellFormed
  plainRest : '<' ∉ c.rest ∧ '>' ∉ c.rest

instance : DecidablePred WellFormed := fun c =>
  decidable_of_iff ((∀ s ∈ c.sections, s.WellFormed) ∧ '<' ∉ c.rest ∧ '>' ∉ c.rest)
    ⟨fun ⟨hs, hr⟩ => ⟨hs, hr⟩, fun ⟨hs, hr⟩ => ⟨hs, hr⟩⟩

variable {c : ClassText} {s : ClassSection}

/-! ## The last section -/

theorem lastGroup?_text_of_nil (h : c.WellFormed) (hs : c.sections = []) :
    lastGroup? c.text = none := by
  unfold text
  rw [hs]
  exact lastGroup?_of_not_mem (by simp [h.plainRest]) (by simp [h.plainRest])

/-- The last group in brackets is that of the last section. -/
theorem lastGroup?_text (h : c.WellFormed) {init : List ClassSection}
    (hs : c.sections = init ++ [s]) :
    lastGroup? c.text = some ⟨'L' :: (init.flatMap ClassSection.text ++ s.name),
      s.arguments.flatMap Argument.text, c.rest ++ [';']⟩ := by
  have hlast : s.WellFormed := h.sections s (by simp [hs])
  have hinit : Balanced (init.flatMap ClassSection.text) :=
    .flatMap fun s' hs' => (h.sections s' (by simp [hs, hs'])).balanced_text
  have hbefore : Balanced ('L' :: (init.flatMap ClassSection.text ++ s.name)) :=
    .char (by decide) (by decide) (hinit.append hlast.balanced_name)
  rw [← lastGroup?_append hbefore hlast.balanced_arguments (by simp [h.plainRest])
    (by simp [h.plainRest])]
  simp [text, hs, ClassSection.text]

theorem lastArguments_of_nil (hs : c.sections = []) : c.lastArguments = [] := by
  unfold lastArguments
  rw [hs]
  rfl

theorem lastArguments_eq {init : List ClassSection} (hs : c.sections = init ++ [s]) :
    c.lastArguments = s.arguments := by
  unfold lastArguments
  rw [hs, List.getLast?_concat]
  rfl

/-- The last arguments are read off the text, whether they end it or not. -/
theorem WellFormed.forall₂_arguments (h : c.WellFormed) :
    List.Forall₂ Argument.IsReadAs c.lastArguments
      ((lastGroup? c.text).elim [] fun group =>
        (argumentTokens group.inside).filterMap TypeArgument.ofToken?) := by
  rcases List.eq_nil_or_concat c.sections with hs | ⟨init, s, hs⟩
  · rw [lastGroup?_text_of_nil h hs, lastArguments_of_nil hs]
    exact .nil
  · rw [List.concat_eq_append] at hs
    have hcomplete := (h.sections s (by simp [hs])).complete
    rw [lastGroup?_text h hs, lastArguments_eq hs, Option.elim_some,
      Argument.argumentTokens_flatMap hcomplete]
    exact Argument.forall₂_isReadAs hcomplete

end ClassText

namespace JavaType

variable {t : JavaType} {c : ClassText}

/-- A valid class with a bracket in it has a generic form. -/
theorem IsValid.signature_eq (ht : t.IsValid) {rest : List Char}
    (hfull : t.full.toList = 'L' :: rest) (hopen : '<' ∈ rest) : t.signature = some t.full := by
  cases hsig : t.signature with
  | some s => simp [full, hsig]
  | none =>
    have hd := (isValid_iff.mp ht).1
    rw [← full_of_none hsig, hfull] at hd
    obtain ⟨body, rfl, -, hplain⟩ := hd.exists_classBody
    simp [hplain rfl] at hopen

theorem signature_eq_of_text (ht : t.IsValid) (htext : t.full.toList = c.text)
    (hs : c.sections ≠ []) : t.signature = some t.full := by
  obtain ⟨s, sections, hs⟩ := List.exists_cons_of_ne_nil hs
  refine ht.signature_eq htext ?_
  simp [hs, ClassSection.text]

theorem forall₂_typeArguments (ht : t.IsValid) (hw : c.WellFormed)
    (htext : t.full.toList = c.text) :
    List.Forall₂ Argument.IsReadAs c.lastArguments t.typeArguments := by
  cases hsig : t.signature with
  | none =>
    have hnil : c.sections = [] := by
      by_contra hs
      cases hsig.symm.trans (signature_eq_of_text ht htext hs)
    rw [ClassText.lastArguments_of_nil hnil, typeArguments_of_signature hsig]
    exact .nil
  | some s =>
    have hs : s.toList = c.text := by simpa [full, hsig] using htext
    rw [typeArguments_of_class hsig hs]
    exact hw.forall₂_arguments

/-- What is read is the innermost class's exactly if no name stands behind it. -/
theorem forall₂_innermost_iff (ht : t.IsValid) (hw : c.WellFormed)
    (htext : t.full.toList = c.text) :
    List.Forall₂ Argument.IsReadAs c.innermost t.typeArguments ↔
      c.rest = [] ∨ c.lastArguments = [] := by
  have h := forall₂_typeArguments ht hw htext
  unfold ClassText.innermost
  by_cases hr : c.rest = []
  · rw [if_pos hr]
    exact iff_of_true h (.inl hr)
  · rw [if_neg hr, or_iff_right hr, List.forall₂_nil_left_iff]
    constructor
    · intro hnil
      rw [hnil] at h
      exact List.forall₂_nil_right_iff.mp h
    · intro hnil
      rw [hnil] at h
      exact List.forall₂_nil_left_iff.mp h

theorem tokens_of_isReadAs {ws : List (Argument (List Char))} {arguments : List TypeArgument}
    (h : List.Forall₂ Argument.IsReadAs ws arguments) :
    TypeArgument.tokens arguments = ws.flatMap Argument.text := by
  rw [TypeArgument.tokens_eq]
  congr 1
  induction h with
  | nil => rfl
  | cons ha _ ih => rw [List.map_cons, ha.written, ih]

/-- Arguments are written in place of those that end the class, and behind the name otherwise. -/
theorem beforeArguments_of_text (hw : c.WellFormed) (htext : t.full.toList = c.text)
    {init : List ClassSection} {s : ClassSection} (hs : c.sections = init ++ [s]) :
    t.beforeArguments =
      if c.rest = [] then 'L' :: (init.flatMap ClassSection.text ++ s.name)
      else t.full.toList.dropLast := by
  unfold beforeArguments
  rw [htext, ClassText.lastGroup?_text hw hs]
  simp only [utf8Length_concat_eq_one_iff]

/-- The type is kept when the arguments that are read are written exactly if they are those of the
    innermost class. -/
theorem withArguments_typeArguments_iff (ht : t.IsValid) (hc : t.category = .classType)
    (hv : t.isVariable = false) (hw : c.WellFormed) (htext : t.full.toList = c.text) :
    t.withArguments t.typeArguments = .ok t ↔ c.rest = [] ∨ c.lastArguments = [] := by
  have h := forall₂_typeArguments ht hw htext
  by_cases hne : t.typeArguments = []
  · have hlast : c.lastArguments = [] := by
      rw [hne] at h
      exact List.forall₂_nil_right_iff.mp h
    refine iff_of_true ?_ (.inr hlast)
    unfold withArguments
    rw [if_neg (by simp [hc, hv]), if_pos hne]
  · have hlast : c.lastArguments ≠ [] := by
      intro hnil
      rw [hnil] at h
      exact hne (List.forall₂_nil_left_iff.mp h)
    have hsections : c.sections ≠ [] := mt ClassText.lastArguments_of_nil hlast
    have hsig := signature_eq_of_text ht htext hsections
    obtain ⟨init, s, hs⟩ := List.eq_nil_or_concat c.sections |>.resolve_left hsections
    rw [List.concat_eq_append] at hs
    have hkept {text : List Char} :
        (.ok ⟨t.descriptor, some (String.ofList text)⟩ : Except Malformed JavaType) = .ok t ↔
          text = t.full.toList := by
      constructor
      · intro heq
        have hs := (congrArg signature (Except.ok.inj heq)).trans hsig
        rw [← Option.some.inj hs, String.toList_ofList]
      · rintro rfl
        rw [String.ofList_toList, ← hsig]
    rw [or_iff_left hlast, withArguments_eq hc hv hne, hkept, beforeArguments_of_text hw htext hs,
      tokens_of_isReadAs h, ClassText.lastArguments_eq hs]
    split
    · next hr =>
      refine iff_of_true ?_ hr
      rw [htext]
      simp [ClassText.text, hs, hr, ClassSection.text]
    · next hr =>
      -- What was written before stays, and the new arguments only make it longer.
      refine iff_of_false (fun he => ?_) hr
      have hlength := congrArg List.length he
      simp only [List.length_append, List.length_dropLast, List.length_cons] at hlength
      omega

/-- The type arguments of the innermost class are read, and writing them again keeps the type,
    exactly if no name stands behind the last ones, or if the last ones are none. -/
theorem typeArguments_innermost_iff (ht : t.IsValid) (hc : t.category = .classType)
    (hv : t.isVariable = false) (hw : c.WellFormed) (htext : t.full.toList = c.text) :
    (List.Forall₂ Argument.IsReadAs c.innermost t.typeArguments ↔
        c.rest = [] ∨ c.lastArguments = []) ∧
      (t.withArguments t.typeArguments = .ok t ↔ c.rest = [] ∨ c.lastArguments = []) :=
  ⟨forall₂_innermost_iff ht hw htext, withArguments_typeArguments_iff ht hc hv hw htext⟩

/-- An inner class and the class around it, both with an argument. -/
theorem typeArguments_innermost_both :
    ∃ t : JavaType, t.full = "Lp/Outer<TT;>.Inner<+[TU;>;" ∧
      t.typeArguments = [.subtypesOf (arrayOf (typeVariable "U" object))] ∧
      t.withArguments t.typeArguments = .ok t := by
  have ht : IsValid ⟨"Lp/Outer$Inner;", some "Lp/Outer<TT;>.Inner<+[TU;>;"⟩ := by decide
  have hw : ClassText.WellFormed
      ⟨[⟨"p/Outer".toList, [.just "TT;".toList]⟩, ⟨".Inner".toList, [.subtypesOf "[TU;".toList]⟩],
        []⟩ := by decide
  obtain ⟨hread, hwrite⟩ := typeArguments_innermost_iff ht (by decide) (by decide) hw (by decide)
  exact ⟨_, rfl, Argument.eq_of_forall₂_isReadAs (hread.mpr (.inl rfl)) (by decide),
    hwrite.mpr (.inl rfl)⟩

/-- An inner class without arguments is given those of the class around it. -/
theorem typeArguments_outer :
    ∃ (t : JavaType) (c : ClassText), t.IsValid ∧ t.category = .classType ∧ t.isVariable = false ∧
      c.WellFormed ∧ t.full.toList = c.text ∧ t.full = "Lp/Outer<TT;>.Inner;" ∧
      c.innermost = [] ∧ t.typeArguments = [.just (typeVariable "T" object)] ∧
      t.withArguments t.typeArguments =
        .ok ⟨"Lp/Outer$Inner;", some "Lp/Outer<TT;>.Inner<TT;>;"⟩ := by
  have ht : IsValid ⟨"Lp/Outer$Inner;", some "Lp/Outer<TT;>.Inner;"⟩ := by decide
  have hw : ClassText.WellFormed
      ⟨[⟨"p/Outer".toList, [.just "TT;".toList]⟩], ".Inner".toList⟩ := by decide
  have hread : typeArguments ⟨"Lp/Outer$Inner;", some "Lp/Outer<TT;>.Inner;"⟩ =
      [.just (typeVariable "T" object)] :=
    Argument.eq_of_forall₂_isReadAs (forall₂_typeArguments ht hw (by decide)) (by decide)
  refine ⟨_, _, ht, by decide, by decide, hw, by decide, rfl, by decide, hread, ?_⟩
  rw [hread]
  decide

end JavaType
end JvmWeave
