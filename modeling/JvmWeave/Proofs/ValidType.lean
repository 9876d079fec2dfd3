import JvmWeave.Method.Signature
import JvmWeave.Proofs.ClassSignature
import JvmWeave.Proofs.NestedScope

/-!
# Types whose two forms fit

A type is valid if it is what its descriptor and its generic form make when they are put together
again.  All operations on types keep that, but for type arguments: they are written into the
descriptor of a class that has no generic form yet, and there a dot means something else.

Validity is defined by the constructor that checks, and `isValid_iff` says what it checks: both
forms are tokens, they differ, and the generic one erases to the other.  The lemmas for the single
operations go by this.

For type arguments the generic form has to be cut, up to the last group if that ends the class.
What is written is the text before with the new arguments behind it (`withArguments_eq`), and
whether that fits depends on the erasure of the text before.  Erasure turns dots into the mark of
inner classes.  A class with a generic form has been through that, and one without has not, whence
the condition of `isValid_withArguments_iff`.
-/

set_option autoImplicit false

namespace JvmWeave

open Text

theorem bind_eq_ok {ε α β : Type} {x : Except ε α} {f : α → Except ε β} {b : β} :
    x >>= f = .ok b ↔ ∃ a, x = .ok a ∧ f a = .ok b := by
  cases x <;> simp [bind, Except.bind]

instance (dialect : Dialect) : DecidablePred (IsToken dialect) := fun token =>
  decidable_of_iff (Token.scan dialect token = .ok (token, [])) (by simp [Token.scan_eq_ok_iff])

theorem requireToken_eq_ok_iff {dialect : Dialect} {input : String} {u : Unit} :
    requireToken dialect input = .ok u ↔ IsToken dialect input.toList := by
  unfold requireToken
  constructor
  · intro h
    split at h
    · cases h
    · next token rest hr =>
      split at h
      · next hrest =>
        obtain ⟨ht, he⟩ := readToken_eq_ok_iff.mp hr
        rw [he, hrest, List.append_nil]
        exact ht
      · cases h
  · intro h
    have hr : readToken dialect input.toList = .ok (input.toList, []) :=
      readToken_eq_ok_iff.mpr ⟨h, by simp⟩
    rw [hr]
    rfl

namespace IsToken

variable {dialect : Dialect} {cs : List Char}

theorem of_bracket (h : IsToken dialect ('[' :: cs)) : IsToken dialect cs := by
  generalize ht : '[' :: cs = token at h
  cases h with
  | primitive p => cases p <;> cases ht
  | typeVariable => cases ht
  | classType => cases ht
  | array h =>
    cases ht
    exact h

theorem exists_classBody (h : IsToken dialect ('L' :: cs)) :
    ∃ body, cs = body ++ [';'] ∧ ClassBody body ∧
      (dialect = .descriptor → '<' ∉ body ∧ '>' ∉ body) := by
  generalize ht : 'L' :: cs = token at h
  cases h with
  | primitive p => cases p <;> cases ht
  | typeVariable => cases ht
  | @classType body hb =>
    cases ht
    refine ⟨body, rfl, closes_zero_iff.mp (isClassBody_iff.mp hb).1, ?_⟩
    rintro rfl
    exact hb.2
  | array h => cases ht

theorem head_ne_variable (h : IsToken .descriptor cs) : (elementOf cs).head? ≠ some 'T' := by
  induction h with
  | primitive p => cases p <;> decide
  | typeVariable hd => cases hd
  | classType => simp [elementOf]
  | array _ ih => exact ih

/-- Brackets match in all tokens but in names of type variables. -/
theorem balanced (h : IsToken dialect cs)
    (hp : ∀ name, elementOf cs = 'T' :: (name ++ [';']) → '<' ∉ name ∧ '>' ∉ name) :
    Balanced cs := by
  induction h with
  | primitive p => cases p <;> exact .of_not_mem (by decide) (by decide)
  | @typeVariable _ name =>
    obtain ⟨ho, hc⟩ := hp name rfl
    exact .char (by decide) (by decide) (.of_not_mem (by simp [ho]) (by simp [hc]))
  | classType hb =>
    have hbody := (closes_zero_iff.mp (isClassBody_iff.mp hb).1).balanced
    exact .char (by decide) (by decide) (hbody.append (.of_not_mem (by decide) (by decide)))
  | array _ ih => exact .char (by decide) (by decide) (ih hp)

end IsToken

namespace JavaType

/-! ## Validity -/

/-- The type is kept when it is put together again from its two forms. -/
def IsValid (t : JavaType) : Prop :=
  ofParts t.descriptor t.signature = .ok t

instance : DecidablePred IsValid := fun _ => inferInstanceAs (Decidable (_ = _))

theorem ofDescriptor_eq_ok_iff {descriptor : String} {t : JavaType} :
    ofDescriptor descriptor = .ok t ↔
      IsToken .descriptor descriptor.toList ∧ t = erased descriptor := by
  unfold ofDescriptor
  simp only [bind_eq_ok, requireToken_eq_ok_iff]
  constructor
  · rintro ⟨_, hd, h⟩
    exact ⟨hd, (Except.ok.inj h).symm⟩
  · rintro ⟨hd, rfl⟩
    exact ⟨(), hd, rfl⟩

theorem ofSignature_eq_ok_iff {descriptor signature : String} {t : JavaType} :
    ofSignature descriptor signature = .ok t ↔
      IsToken .descriptor descriptor.toList ∧ IsToken .signature signature.toList ∧
        if signature = descriptor then t = erased descriptor
        else erasesTo signature.toList descriptor.toList = true ∧
          t = ⟨descriptor, some signature⟩ := by
  unfold ofSignature
  simp only [bind_eq_ok, ofDescriptor_eq_ok_iff, requireToken_eq_ok_iff]
  constructor
  · rintro ⟨_, ⟨hd, rfl⟩, _, hs, h⟩
    refine ⟨hd, hs, ?_⟩
    split at h
    · next he =>
      rw [if_pos he]
      exact (Except.ok.inj h).symm
    · next he =>
      rw [if_neg he]
      split at h
      · next hg => exact ⟨hg, (Except.ok.inj h).symm⟩
      · cases h
  · rintro ⟨hd, hs, h⟩
    refine ⟨_, ⟨hd, rfl⟩, (), hs, ?_⟩
    split at h
    · next he =>
      rw [if_pos he, h]
      rfl
    · next he =>
      rw [if_neg he, if_pos h.1, h.2]
      rfl

theorem isValid_iff {t : JavaType} :
    t.IsValid ↔ IsToken .descriptor t.descriptor.toList ∧ ∀ s, t.signature = some s →
      IsToken .signature s.toList ∧ s ≠ t.descriptor ∧
        erasesTo s.toList t.descriptor.toList = true := by
  obtain ⟨descriptor, signature⟩ := t
  unfold IsValid ofParts
  cases signature with
  | none => simp [ofDescriptor_eq_ok_iff, erased]
  | some s =>
    simp only [ofSignature_eq_ok_iff, Option.some.injEq, forall_eq']
    by_cases he : s = descriptor <;> simp [he, erased]

theorem isValid_of_ofSignature {descriptor signature : String} {t : JavaType}
    (h : ofSignature descriptor signature = .ok t) : t.IsValid := by
  have hall := h
  obtain ⟨hd, -, ht⟩ := ofSignature_eq_ok_iff.mp h
  split at ht
  · rw [ht]
    exact ofDescriptor_eq_ok_iff.mpr ⟨hd, rfl⟩
  · rw [ht.2] at hall ⊢
    exact hall

theorem isValid_of_ofDescriptor {descriptor : String} {t : JavaType}
    (h : ofDescriptor descriptor = .ok t) : t.IsValid := by
  obtain ⟨hd, rfl⟩ := ofDescriptor_eq_ok_iff.mp h
  exact h

theorem isValid_of_ofParts {descriptor : String} {signature : Option String} {t : JavaType}
    (h : ofParts descriptor signature = .ok t) : t.IsValid := by
  cases signature with
  | none => exact isValid_of_ofDescriptor h
  | some s => exact isValid_of_ofSignature h

theorem isValid_erased {descriptor : String} (h : IsDescriptor descriptor.toList) :
    (erased descriptor).IsValid :=
  ofDescriptor_eq_ok_iff.mpr ⟨h.isToken, rfl⟩

theorem isValid_primitive (p : Primitive) : (primitive p).IsValid :=
  isValid_erased (isDescriptor_primitive p)

theorem isValid_ofBinaryName (n : BinaryName) : (ofBinaryName n).IsValid :=
  isValid_erased (isDescriptor_ofBinaryName n)

theorem full_of_none {t : JavaType} (h : t.signature = none) : t.full = t.descriptor := by
  unfold full
  rw [h]
  rfl

theorem IsValid.isToken_full {t : JavaType} (h : t.IsValid) : IsToken .signature t.full.toList := by
  obtain ⟨hd, hs⟩ := isValid_iff.mp h
  unfold full
  cases hsig : t.signature with
  | none => exact hd.signature
  | some s => exact (hs s hsig).1

/-! ## Arrays -/

theorem isValid_arrayOf {t : JavaType} (h : t.IsValid) : (arrayOf t).IsValid := by
  obtain ⟨hd, hs⟩ := isValid_iff.mp h
  rw [isValid_iff, toList_descriptor_arrayOf]
  refine ⟨hd.array, fun s he => ?_⟩
  obtain ⟨inner, hi, rfl⟩ := Option.map_eq_some_iff.mp he
  obtain ⟨ht, hne, hg⟩ := hs inner hi
  have hl : ("[" ++ inner).toList = '[' :: inner.toList := by simp
  rw [hl, Scope.Denotes.erasesTo_cons_bracket]
  refine ⟨ht.array, fun heq => hne ?_, hg⟩
  have := congrArg String.toList heq
  rw [hl, toList_descriptor_arrayOf] at this
  exact String.toList_injective (List.cons.inj this).2

/-- Both forms start alike, unless the generic form is a type variable. -/
theorem head?_of_erasesTo {signature descriptor : List Char}
    (h : erasesTo signature descriptor = true) : signature.head? = descriptor.head? ∨
      (signature.head? = some 'T' ∧ descriptor.head? = some 'L') := by
  cases signature with
  | nil => simp [erasesTo, isVariableSignature, elementOf, erasure?] at h
  | cons c cs =>
    unfold erasesTo at h
    split at h
    · next hv =>
      simp only [Bool.and_eq_true, decide_eq_true_eq] at h
      by_cases hc : c = '['
      · left
        cases descriptor with
        | nil => simp [hc, dimensionsOf] at h
        | cons d ds =>
          by_cases hd : d = '['
          · rw [hc, hd]
            rfl
          · simp [hc, hd, dimensionsOf] at h
      · right
        have hdims : dimensionsOf descriptor = 0 := by simpa [dimensionsOf, hc] using h.1
        have helement : elementOf descriptor = descriptor := by
          cases descriptor with
          | nil => rfl
          | cons d ds =>
            by_cases hd : d = '['
            · simp [hd, dimensionsOf] at hdims
            · simp [elementOf, hd]
        rw [helement] at h
        refine ⟨?_, h.2⟩
        simpa [isVariableSignature, elementOf, hc] using hv
    · left
      simp only [decide_eq_true_eq] at h
      rw [erasure?] at h
      split at h
      · next hc =>
        obtain ⟨inner, -, rfl⟩ := Option.map_eq_some_iff.mp h
        rw [hc]
        rfl
      · split at h
        · cases h
        · split at h
          · next hl =>
            cases h
            rw [hl, eraseClass, if_neg (by decide), if_neg (by decide), if_pos rfl]
            rfl
          · cases h
            rfl

theorem isValid_element {t e : JavaType} (h : t.IsValid) (he : t.element? = some e) :
    e.IsValid := by
  obtain ⟨hd, hs⟩ := isValid_iff.mp h
  unfold element? at he
  split at he
  · next rest hrest =>
    cases he
    rw [hrest] at hd hs
    rw [isValid_iff, String.toList_ofList]
    refine ⟨hd.of_bracket, fun s he => ?_⟩
    obtain ⟨whole, hw, hm⟩ := Option.bind_eq_some_iff.mp he
    obtain ⟨inner, hi, rfl⟩ := Option.map_eq_some_iff.mp hm
    obtain ⟨ht, hne, hg⟩ := hs whole hw
    have hl : whole.toList = '[' :: inner := stripPrefix?_eq_some_iff.mp hi
    rw [hl] at ht hg
    rw [Scope.Denotes.erasesTo_cons_bracket] at hg
    rw [String.toList_ofList]
    refine ⟨ht.of_bracket, fun heq => hne ?_, hg⟩
    have hinner : inner = rest := by simpa using congrArg String.toList heq
    exact String.toList_injective (by rw [hl, hrest, hinner])
  · cases he

/-! ## Type variables -/

/-- The type is a class and no array. -/
def IsClass (t : JavaType) : Prop :=
  t.descriptor.toList.head? = some 'L'

/-- The name of the type variable, if the type is one or an array of one, has none of the marks. -/
def VariableAvoids (marks : List Char) (t : JavaType) : Prop :=
  ∀ name, elementOf t.full.toList = 'T' :: (name ++ [';']) → ∀ c ∈ marks, c ∉ name

theorem variableAvoids_iff {marks : List Char} {t : JavaType} :
    t.VariableAvoids marks ↔
      ((elementOf t.full.toList).head? = some 'T' →
        (elementOf t.full.toList).tail.getLast? = some ';' →
          ∀ c ∈ marks, c ∉ (elementOf t.full.toList).tail.dropLast) := by
  unfold VariableAvoids
  generalize elementOf t.full.toList = cs
  constructor
  · intro h hhead hlast
    obtain ⟨rest, rfl⟩ := List.head?_eq_some_iff.mp hhead
    obtain ⟨name, rfl⟩ := List.getLast?_eq_some_iff.mp hlast
    simpa using h name rfl
  · rintro h name rfl
    simpa using h

instance (marks : List Char) : DecidablePred (VariableAvoids marks) := fun t =>
  have : Decidable (∀ c ∈ marks, c ∉ (elementOf t.full.toList).tail.dropLast) :=
    List.decidableBAll _ marks
  decidable_of_iff _ variableAvoids_iff.symm

theorem isClass_ofBinaryName (n : BinaryName) : (ofBinaryName n).IsClass := by
  unfold IsClass
  rw [toList_descriptor_ofBinaryName]
  rfl

theorem isClass_of_category {t : JavaType} (h : t.category = .classType) : t.IsClass := by
  unfold category at h
  unfold IsClass
  split at h
  · cases h
  · split at h
    · cases h
    · split at h
      · cases h
      · next hd =>
        split at h
        · cases h
        · split at h
          · next hl => rw [hd, hl]; rfl
          · split at h <;> cases h

theorem isValid_typeVariable {name : String} {bound : JavaType} (hb : bound.IsValid)
    (hc : bound.IsClass) (hn : ';' ∉ name.toList) : (typeVariable name bound).IsValid := by
  rw [isValid_iff]
  refine ⟨(isValid_iff.mp hb).1, fun s hs => ?_⟩
  cases hs
  have hl : ("T" ++ name ++ ";").toList = 'T' :: (name.toList ++ [';']) := by simp
  obtain ⟨cs, hcs⟩ := List.head?_eq_some_iff.mp hc
  have hd : (typeVariable name bound).descriptor.toList = 'L' :: cs := hcs
  rw [hl]
  refine ⟨.typeVariable rfl hn, fun he => ?_, ?_⟩
  · have := congrArg String.toList he
    rw [hl, hd] at this
    exact absurd (List.cons.inj this).1 (by decide)
  · rw [hd]
    rfl

theorem IsValid.balanced_full {t : JavaType} (h : t.IsValid) {marks : List Char}
    (hm : '<' ∈ marks ∧ '>' ∈ marks) (hv : t.VariableAvoids marks) : Balanced t.full.toList :=
  h.isToken_full.balanced fun name hn => ⟨hv name hn _ hm.1, hv name hn _ hm.2⟩

/-! ## Type arguments -/

theorem descriptor_of_ofSignature {descriptor signature : String} {t : JavaType}
    (h : ofSignature descriptor signature = .ok t) : t.descriptor = descriptor := by
  obtain ⟨-, -, ht⟩ := ofSignature_eq_ok_iff.mp h
  split at ht
  · rw [ht]
    rfl
  · rw [ht.2]

/-- A type that is read from a generic form has the descriptor that goes with it. -/
theorem exists_of_ofGeneric? {signature : List Char} {t : JavaType}
    (h : ofGeneric? signature = some t) :
    ∃ descriptor, Scope.Denotes.genericErasure? signature = some descriptor ∧
      ofSignature (String.ofList descriptor) (String.ofList signature) = .ok t := by
  rw [Scope.Denotes.ofGeneric?_eq] at h
  obtain ⟨descriptor, hd, h⟩ := Option.bind_eq_some_iff.mp h
  refine ⟨descriptor, hd, ?_⟩
  cases hs : ofSignature (String.ofList descriptor) (String.ofList signature) with
  | error e => rw [hs] at h; cases h
  | ok u =>
    rw [hs] at h
    cases h
    rfl

theorem isValid_of_ofGeneric? {signature : List Char} {t : JavaType}
    (h : ofGeneric? signature = some t) : t.IsValid := by
  obtain ⟨descriptor, -, ht⟩ := exists_of_ofGeneric? h
  exact isValid_of_ofSignature ht

/-- What an argument mentions is read from a generic form. -/
theorem exists_generic_of_mem_typeArguments {t u : JavaType} {a : TypeArgument}
    (ha : a ∈ t.typeArguments) (hu : a.type? = some u) : ∃ cs, ofGeneric? cs = some u := by
  unfold typeArguments at ha
  split at ha
  · split at ha
    · obtain ⟨token, -, ht⟩ := List.mem_filterMap.mp ha
      have hmap {cs : List Char} {f : JavaType → TypeArgument} (hf : ∀ v, (f v).type? = some v)
          (h : (ofGeneric? cs).map f = some a) : ∃ cs, ofGeneric? cs = some u := by
        obtain ⟨v, hv, rfl⟩ := Option.map_eq_some_iff.mp h
        cases (hf v).symm.trans hu
        exact ⟨cs, hv⟩
      cases token with
      | nil => cases ht
      | cons c cs =>
        rw [TypeArgument.ofToken?] at ht
        split at ht
        · cases ht
          cases hu
        · split at ht
          · exact hmap (fun _ => rfl) ht
          · split at ht
            · exact hmap (fun _ => rfl) ht
            · exact hmap (fun _ => rfl) ht
    · cases ha
  · cases ha

theorem isValid_of_mem_typeArguments {t u : JavaType} {a : TypeArgument} (ha : a ∈ t.typeArguments)
    (hu : a.type? = some u) : u.IsValid := by
  obtain ⟨cs, hcs⟩ := exists_generic_of_mem_typeArguments ha hu
  exact isValid_of_ofGeneric? hcs

theorem utf8Length_concat_eq_one_iff {cs : List Char} :
    utf8Length (cs ++ [';']) = 1 ↔ cs = [] := by
  cases cs with
  | nil => exact iff_of_true rfl rfl
  | cons c cs =>
    refine iff_of_false ?_ (List.cons_ne_nil c cs)
    have := c.utf8Size_pos
    have := ';'.utf8Size_pos
    simp only [List.cons_append, utf8Length_append, utf8Length_cons, utf8Length_nil]
    omega

/-- The generic form up to where arguments are written. -/
def beforeArguments (t : JavaType) : List Char :=
  match lastGroup? t.full.toList with
  | some group => if utf8Length group.after = 1 then group.before else t.full.toList.dropLast
  | none => t.full.toList.dropLast

theorem withArguments_eq {t : JavaType} (hc : t.category = .classType) (hv : t.isVariable = false)
    {arguments : List TypeArgument} (hne : arguments ≠ []) :
    t.withArguments arguments = .ok ⟨t.descriptor, some (String.ofList
      (t.beforeArguments ++ '<' :: TypeArgument.tokens arguments ++ ['>', ';']))⟩ := by
  have hguard : ¬(t.category ≠ .classType ∨ t.isVariable = true) := by simp [hc, hv]
  unfold withArguments
  rw [if_neg hguard, if_neg hne]
  rfl

/-- Arguments that end the class give way to the new ones, and erasure does not see them. -/
theorem exists_beforeArguments {t : JavaType} {body : List Char}
    (hfull : t.full.toList = 'L' :: (body ++ [';'])) (hb : ClassBody body) :
    ∃ before, t.beforeArguments = 'L' :: before ∧ ClassBody before ∧
      eraseClass 0 before = eraseClass 0 body := by
  have hlast : t.full.toList.dropLast = 'L' :: body := by
    rw [hfull, ← List.cons_append, List.dropLast_concat]
  unfold beforeArguments
  rcases hb.exists_last with ⟨ho, he⟩ | ⟨before, inside, after, rfl, hbefore, hi, ho, he⟩
  · have hnone : lastGroup? t.full.toList = none := by
      rw [hfull]
      exact lastGroup?_of_not_mem (by simp [ho]) (by simp [he])
    rw [hnone]
    exact ⟨body, hlast, hb, rfl⟩
  · have hsome : lastGroup? t.full.toList = some ⟨'L' :: before, inside, after ++ [';']⟩ := by
      have hl : Balanced ('L' :: before) := .char (by decide) (by decide) hbefore.balanced
      have ho : '<' ∉ after ++ [';'] := by simp [ho]
      have he : '>' ∉ after ++ [';'] := by simp [he]
      rw [hfull, ← lastGroup?_append hl hi ho he]
      simp
    rw [hsome]
    cases after with
    | nil =>
      refine ⟨before, rfl, hbefore, ?_⟩
      rw [hbefore.balanced.eraseClass_append_zero, eraseClass, if_pos rfl, hi.eraseClass_append]
      simp [eraseClass]
    | cons c after =>
      dsimp only
      rw [if_neg (mt utf8Length_concat_eq_one_iff.mp (List.cons_ne_nil c after))]
      exact ⟨_, hlast, hb, rfl⟩

/-- The generic form of a class that is no type variable is that of a class. -/
theorem IsValid.exists_classBody {t : JavaType} (h : t.IsValid) (hc : t.IsClass)
    (hv : t.isVariable = false) :
    ∃ body, t.full.toList = 'L' :: (body ++ [';']) ∧ ClassBody body := by
  obtain ⟨hd, hs⟩ := isValid_iff.mp h
  obtain ⟨cs, hcs⟩ := List.head?_eq_some_iff.mp hc
  have hfull : ∃ rest, t.full.toList = 'L' :: rest := by
    unfold full
    cases hsig : t.signature with
    | none => exact ⟨cs, hcs⟩
    | some s =>
      rcases head?_of_erasesTo (hs s hsig).2.2 with hhead | ⟨hhead, -⟩
      · exact List.head?_eq_some_iff.mp (hhead.trans hc)
      · obtain ⟨name, hname⟩ := List.head?_eq_some_iff.mp hhead
        simp [isVariable, variableName?, hsig, hname] at hv
  obtain ⟨rest, hrest⟩ := hfull
  have ht := h.isToken_full
  rw [hrest] at ht
  obtain ⟨body, rfl, hb, -⟩ := ht.exists_classBody
  exact ⟨body, hrest, hb⟩

theorem erasure?_of_balanced {body : List Char} (hb : Balanced body) :
    erasure? ('L' :: (body ++ [';'])) = some ('L' :: (eraseClass 0 body ++ [';'])) := by
  rw [erasure?, if_neg (by decide), if_neg (by decide), if_pos rfl, eraseClass, if_neg (by decide),
    if_neg (by decide), if_pos rfl, if_neg (by decide), hb.eraseClass_append_zero]
  rfl

theorem erasesTo_class_iff {body descriptor : List Char} (hb : Balanced body) :
    erasesTo ('L' :: (body ++ [';'])) descriptor = true ↔
      'L' :: (eraseClass 0 body ++ [';']) = descriptor := by
  have hv : isVariableSignature ('L' :: (body ++ [';'])) = false := rfl
  simp [erasesTo, hv, erasure?_of_balanced hb]

/-- A class fits its own erasure if it says more than its descriptor, or has no dots to replace. -/
theorem IsValid.eraseClass_eq_iff {t : JavaType} (h : t.IsValid) {body : List Char}
    (hfull : t.full.toList = 'L' :: (body ++ [';'])) (hb : ClassBody body) :
    'L' :: (eraseClass 0 body ++ [';']) = t.descriptor.toList ↔
      t.signature ≠ none ∨ '.' ∉ t.descriptor.toList := by
  obtain ⟨hd, hs⟩ := isValid_iff.mp h
  cases hsig : t.signature with
  | some s =>
    have hf : s.toList = 'L' :: (body ++ [';']) := by simpa [full, hsig] using hfull
    have hg := (hs s hsig).2.2
    rw [hf] at hg
    simpa using (erasesTo_class_iff hb.balanced).mp hg
  | none =>
    have hf : t.descriptor.toList = 'L' :: (body ++ [';']) := by simpa [full, hsig] using hfull
    rw [hf] at hd ⊢
    obtain ⟨_, he, -, hplain⟩ := hd.exists_classBody
    obtain ⟨ho, hc⟩ := List.append_cancel_right he ▸ hplain rfl
    rw [eraseClass_of_not_mem ho hc]
    simp [replace_eq_self_iff]

/-- New arguments fit exactly if the class without them erases to the descriptor. -/
theorem isValid_withArguments_iff {t u : JavaType} (h : t.IsValid) {arguments : List TypeArgument}
    (ha : ∀ a ∈ arguments, ∀ v, a.type? = some v → v.IsValid ∧ v.VariableAvoids ['<', '>'])
    (hu : t.withArguments arguments = .ok u) :
    u.IsValid ↔ arguments = [] ∨ t.signature ≠ none ∨ '.' ∉ t.descriptor.toList := by
  have hguard : t.category = .classType ∧ t.isVariable = false := by
    by_contra hn
    have hrefused : t.category ≠ .classType ∨ t.isVariable = true := by
      rwa [not_and_or, Bool.not_eq_false] at hn
    unfold withArguments at hu
    rw [if_pos hrefused] at hu
    cases hu
  by_cases hne : arguments = []
  · have hsame : u = t := by
      unfold withArguments at hu
      rw [if_neg (by simp [hguard]), if_pos hne] at hu
      exact (Except.ok.inj hu).symm
    simp [hsame, hne, h]
  · obtain ⟨body, hfull, hbody⟩ := h.exists_classBody (isClass_of_category hguard.1) hguard.2
    obtain ⟨before, hbefore, hb, herase⟩ := exists_beforeArguments hfull hbody
    have htokens : Balanced (TypeArgument.tokens arguments) := .flatMap fun a hm =>
      Scope.Denotes.balanced_token fun v hv =>
        (ha a hm v hv).1.balanced_full (by decide) (ha a hm v hv).2
    have hwhole : ClassBody (before ++ '<' :: (TypeArgument.tokens arguments ++ ['>'])) :=
      hb.append (.group htokens .nil)
    have hsignature : t.beforeArguments ++ '<' :: TypeArgument.tokens arguments ++ ['>', ';'] =
        'L' :: (before ++ '<' :: (TypeArgument.tokens arguments ++ ['>']) ++ [';']) := by
      simp [hbefore]
    have hbody' : eraseClass 0 (before ++ '<' :: (TypeArgument.tokens arguments ++ ['>'])) =
        eraseClass 0 body := by
      rw [hb.balanced.eraseClass_append_zero, eraseClass, if_pos rfl, htokens.eraseClass_append,
        herase]
      simp [eraseClass]
    rw [withArguments_eq hguard.1 hguard.2 hne, hsignature] at hu
    cases hu
    rw [isValid_iff, or_iff_right hne, ← h.eraseClass_eq_iff hfull hbody]
    simp only [Option.some.injEq, forall_eq', String.toList_ofList,
      erasesTo_class_iff hwhole.balanced, hbody']
    obtain ⟨hd, -⟩ := isValid_iff.mp h
    refine ⟨fun hall => hall.2.2.2, fun he => ⟨hd, .classType hwhole.closes, fun heq => ?_, he⟩⟩
    rw [← heq, String.toList_ofList] at hd
    obtain ⟨_, hcancel, -, hplain⟩ := hd.exists_classBody
    exact (List.append_cancel_right hcancel ▸ hplain rfl).1 (by simp)

end JavaType
end JvmWeave
