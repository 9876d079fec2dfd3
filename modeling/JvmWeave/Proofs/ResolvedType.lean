import JvmWeave.Proofs.ErasedType

/-!
# The types that expressions mean

`Denotes` lists the types that the expressions of a scope can mean, by how they are put together.
Their generic forms are single tokens, so that type arguments that were written one after another
are read back one by one.

Generic forms do not keep the bounds of type variables.  A type that was read from a generic form
has `Object` in their place, which is what the flag of `Denotes` stands for.
-/

set_option autoImplicit false

namespace JvmWeave

open Text

/-! ## Generic forms -/

/-- The tokens of the arguments one after another. -/
def TypeArgument.tokens (arguments : List TypeArgument) : List Char :=
  arguments.flatMap fun a => a.token.toList

namespace TypeArgument

/-- The argument as it is written, with the generic form of its type. -/
def written (a : TypeArgument) : Argument (List Char) :=
  a.map fun t => t.full.toList

theorem toList_token (a : TypeArgument) : a.token.toList = a.written.text := by
  cases a <;> simp [token, written, Argument.map, Argument.text]

theorem tokens_eq (arguments : List TypeArgument) :
    tokens arguments = (arguments.map written).flatMap Argument.text := by
  unfold tokens
  rw [List.flatMap_map]
  simp only [toList_token]

theorem isComplete_written {a : TypeArgument}
    (h : ∀ t, a.type? = some t → IsToken .signature t.full.toList) : a.written.IsComplete := by
  intro token ht
  cases a <;> cases ht <;> exact h _ rfl

/-- An argument is read from what is written for it if its type is read from its generic form. -/
theorem ofToken?_written {a : TypeArgument} (hc : a.written.IsComplete)
    (h : ∀ t, a.type? = some t → JavaType.ofGeneric? t.full.toList = some t) :
    ofToken? a.written.text = some a := by
  cases a with
  | any => rfl
  | just t =>
    obtain ⟨c, cs, ht, hstar, hplus, hminus⟩ := (hc t.full.toList rfl).exists_cons
    have hg := h t rfl
    show ofToken? t.full.toList = _
    rw [ht] at hg ⊢
    rw [ofToken?, if_neg hstar, if_neg hplus, if_neg hminus, hg]
    rfl
  | subtypesOf t =>
    show ofToken? ('+' :: t.full.toList) = _
    rw [ofToken?, if_neg (by decide), if_pos rfl, h t rfl]
    rfl
  | supertypesOf t =>
    show ofToken? ('-' :: t.full.toList) = _
    rw [ofToken?, if_neg (by decide), if_neg (by decide), if_pos rfl, h t rfl]
    rfl

end TypeArgument

namespace JavaType

/-- The class with these type arguments. -/
def applied (n : BinaryName) (arguments : List TypeArgument) : JavaType :=
  ⟨n.descriptor, some (String.ofList
    ('L' :: (n.text.toList ++ '<' :: (TypeArgument.tokens arguments ++ ['>', ';']))))⟩

theorem toList_full_primitive (p : Primitive) : (primitive p).full.toList = [p.letter] := by
  cases p <;> rfl

theorem toList_full_typeVariable (name : String) (bound : JavaType) :
    (typeVariable name bound).full.toList = 'T' :: (name.toList ++ [';']) := by
  simp [typeVariable, full]

theorem variableName?_typeVariable (name : String) (bound : JavaType) :
    (typeVariable name bound).variableName? = some name := by
  have hs : (typeVariable name bound).signature.map String.toList =
      some ('T' :: (name.toList ++ [';'])) := by
    simp [typeVariable]
  unfold variableName?
  rw [hs]
  show some (String.ofList (name.toList ++ [';']).dropLast) = some name
  rw [List.dropLast_concat, String.ofList_toList]

theorem toList_full_ofBinaryName (n : BinaryName) :
    (ofBinaryName n).full.toList = 'L' :: (n.text.toList ++ [';']) :=
  n.toList_descriptor

theorem eq_of_full_ofBinaryName {m n : BinaryName}
    (h : (ofBinaryName m).full = (ofBinaryName n).full) : m = n := by
  have hl := congrArg String.toList h
  rw [toList_full_ofBinaryName, toList_full_ofBinaryName] at hl
  exact BinaryName.eq_of_toList (List.append_cancel_right (List.cons.inj hl).2)

theorem toList_full_arrayOf (t : JavaType) : (arrayOf t).full.toList = '[' :: t.full.toList := by
  unfold arrayOf full
  cases t.signature <;> simp

theorem toList_full_applied (n : BinaryName) (arguments : List TypeArgument) :
    (applied n arguments).full.toList =
      'L' :: (n.text.toList ++ '<' :: (TypeArgument.tokens arguments ++ ['>', ';'])) := by
  simp [applied, full]

theorem full_applied_iff {m n : BinaryName} {as bs : List TypeArgument} :
    (applied m as).full = (applied n bs).full ↔
      m = n ∧ TypeArgument.tokens as = TypeArgument.tokens bs := by
  constructor
  · intro h
    have hl := congrArg String.toList h
    rw [toList_full_applied, toList_full_applied] at hl
    have htext := (List.cons.inj hl).2
    have hsplit := congrArg (split '<') htext
    rw [split_append _ (m.not_mem_text rfl), split_append _ (n.not_mem_text rfl)] at hsplit
    have hname := (List.cons.inj hsplit).1
    rw [hname] at htext
    exact ⟨BinaryName.eq_of_toList hname,
      List.append_cancel_right (List.cons.inj (List.append_cancel_left htext)).2⟩
  · rintro ⟨rfl, htokens⟩
    unfold applied
    rw [htokens]

/-! ## Type arguments -/

theorem lastGroup?_class (n : BinaryName) {inside : List Char} (h : Balanced inside) :
    lastGroup? ('L' :: (n.text.toList ++ '<' :: (inside ++ ['>', ';']))) =
      some ⟨'L' :: n.text.toList, inside, [';']⟩ := by
  have hb : Balanced ('L' :: n.text.toList) :=
    .char (by decide) (by decide) n.unmarked_text.balanced
  exact lastGroup?_append hb h (by decide) (by decide)

theorem lastGroup?_ofBinaryName (n : BinaryName) :
    lastGroup? ('L' :: (n.text.toList ++ [';'])) = none := by
  have ho : '<' ∉ n.text.toList := n.not_mem_text rfl
  have hc : '>' ∉ n.text.toList := n.not_mem_text rfl
  exact lastGroup?_of_not_mem (by simp [ho]) (by simp [hc])

theorem typeArguments_of_signature {t : JavaType} (h : t.signature = none) :
    t.typeArguments = [] := by
  unfold typeArguments
  rw [h]
  rfl

theorem typeArguments_of_class {t : JavaType} {s : String} {rest : List Char}
    (h : t.signature = some s) (hs : s.toList = 'L' :: rest) :
    t.typeArguments = (lastGroup? ('L' :: rest)).elim [] fun group =>
      (argumentTokens group.inside).filterMap TypeArgument.ofToken? := by
  unfold typeArguments
  rw [h, Option.map_some, hs]
  cases hg : lastGroup? ('L' :: rest) <;> simp only [hg, Option.elim_some, Option.elim_none]

/-! ## Categories -/

theorem category_union {t : JavaType} (h : '|' ∈ t.descriptor.toList) : t.category = .union := by
  have hq : t.descriptor ≠ "?" := by
    intro he
    rw [he] at h
    exact absurd h (by decide)
  unfold category
  rw [if_neg hq, if_pos (by simpa using h)]

theorem category_array {t : JavaType} {cs : List Char} (hd : t.descriptor.toList = '[' :: cs)
    (h : '|' ∉ t.descriptor.toList) : t.category = .array := by
  have hq : t.descriptor ≠ "?" := by
    intro he
    rw [he] at hd
    exact absurd (List.cons.inj hd).1 (by decide)
  unfold category
  rw [if_neg hq, if_neg (by simpa using h), hd]
  rfl

theorem category_class {t : JavaType} {cs : List Char} (hd : t.descriptor.toList = 'L' :: cs)
    (h : '|' ∉ t.descriptor.toList) : t.category = .classType := by
  have hq : t.descriptor ≠ "?" := by
    intro he
    rw [he] at hd
    exact absurd (List.cons.inj hd).1 (by decide)
  unfold category
  rw [if_neg hq, if_neg (by simpa using h), hd]
  rfl

theorem bar_mem_descriptor {n : BinaryName} :
    '|' ∈ (ofBinaryName n).descriptor.toList ↔ '|' ∈ n.text.toList := by
  rw [toList_descriptor_ofBinaryName]
  simp

/-- Arguments can be given to a class whose name is not read as a union. -/
theorem withArguments_ofBinaryName {n : BinaryName} {arguments : List TypeArgument}
    (hne : arguments ≠ []) {t : JavaType} :
    (ofBinaryName n).withArguments arguments = .ok t ↔
      '|' ∉ n.text.toList ∧ t = applied n arguments := by
  by_cases hb : '|' ∈ n.text.toList
  · refine iff_of_false ?_ fun h => h.1 hb
    have hc : (ofBinaryName n).category ≠ .classType := by
      rw [category_union (bar_mem_descriptor.mpr hb)]
      decide
    unfold withArguments
    rw [if_pos (.inl hc)]
    nofun
  · have hc : (ofBinaryName n).category = .classType :=
      category_class (toList_descriptor_ofBinaryName n) (mt bar_mem_descriptor.mp hb)
    have hlast : ('L' :: (n.text.toList ++ [';'])).dropLast = 'L' :: n.text.toList := by
      rw [← List.cons_append, List.dropLast_concat]
    unfold withArguments
    have hv : ¬((ofBinaryName n).category ≠ .classType ∨ (ofBinaryName n).isVariable = true) := by
      rintro (h | h)
      · exact h hc
      · cases h
    rw [if_neg hv, if_neg hne]
    dsimp only
    rw [toList_full_ofBinaryName, lastGroup?_ofBinaryName]
    dsimp only
    rw [hlast]
    have ht : (⟨n.descriptor, some (String.ofList ('L' :: n.text.toList ++
        '<' :: TypeArgument.tokens arguments ++ ['>', ';']))⟩ : JavaType) =
          applied n arguments := by
      unfold applied
      simp only [List.cons_append, List.append_assoc]
    constructor
    · intro h
      exact ⟨hb, (Except.ok.inj h).symm.trans ht⟩
    · rintro ⟨-, rfl⟩
      exact congrArg Except.ok ht

end JavaType

namespace Scope

/-- The types that expressions of the scope can mean, and those (where the flag is set) that are
    read from type arguments of such types. -/
inductive Denotes (s : Scope) : Bool → JavaType → Prop
  | primitive (inner : Bool) (p : Primitive) : Denotes s inner (.primitive p)
  | typeVariable (inner : Bool) {name : List Char} {bound : JavaType} (hn : PlainName name)
      (he : ';' ∉ name)
      (h : s.evaluateName [] (String.ofList name) =
        .ok (.typeVariable (String.ofList name) bound)) :
      Denotes s inner (.typeVariable (String.ofList name) (if inner then .object else bound))
  | classType (inner : Bool) (n : BinaryName) : Denotes s inner (.ofBinaryName n)
  | array {inner : Bool} {t : JavaType} (h : Denotes s inner t) : Denotes s inner (.arrayOf t)
  | applied (inner : Bool) {n : BinaryName} {arguments : List TypeArgument}
      (hn : '|' ∉ n.text.toList) (hne : arguments ≠ [])
      (h : ∀ a ∈ arguments, ∀ u, a.type? = some u → Denotes s true u) :
      Denotes s inner (.applied n arguments)

/-- The descriptor that goes with a generic form in the scope, where type variables have the
    descriptors of their bounds. -/
def erasureOf (s : Scope) : List Char → List Char
  | [] => []
  | c :: cs =>
    if c = '[' then '[' :: s.erasureOf cs
    else if c = 'T' then
      match s.evaluateName [] (String.ofList cs.dropLast) with
      | .ok t => t.descriptor.toList
      | .error _ => []
    else (erasure? (c :: cs)).getD []

namespace Denotes

/-- Every generic form has its own type, whose variables have no bounds. -/
theorem exists_inner {s : Scope} {inner : Bool} {t : JavaType} (h : s.Denotes inner t) :
    ∃ u, s.Denotes true u ∧ u.full = t.full := by
  induction h with
  | primitive _ p => exact ⟨_, .primitive true p, rfl⟩
  | typeVariable _ hn he h => exact ⟨_, .typeVariable true hn he h, rfl⟩
  | classType _ n => exact ⟨_, .classType true n, rfl⟩
  | array _ ih =>
    obtain ⟨u, hu, hf⟩ := ih
    refine ⟨_, .array hu, String.toList_injective ?_⟩
    rw [JavaType.toList_full_arrayOf, JavaType.toList_full_arrayOf, hf]
  | applied _ hn hne h => exact ⟨_, .applied true hn hne h, rfl⟩

/-! ## Tokens -/

theorem balanced_token {a : TypeArgument}
    (h : ∀ u, a.type? = some u → Balanced u.full.toList) : Balanced a.token.toList := by
  cases a with
  | any => exact .char (by decide) (by decide) .nil
  | just u => exact h u rfl
  | subtypesOf u =>
    unfold TypeArgument.token
    rw [String.toList_append]
    exact .char (by decide) (by decide) (h u rfl)
  | supertypesOf u =>
    unfold TypeArgument.token
    rw [String.toList_append]
    exact .char (by decide) (by decide) (h u rfl)

theorem balanced_full {s : Scope} {inner : Bool} {t : JavaType} (h : s.Denotes inner t) :
    Balanced t.full.toList := by
  induction h with
  | primitive _ p =>
    rw [JavaType.toList_full_primitive]
    cases p <;> exact .char (by decide) (by decide) .nil
  | typeVariable _ hn _ _ =>
    rw [JavaType.toList_full_typeVariable, String.toList_ofList]
    have hname : Balanced _ := .of_not_mem hn.noOpen hn.noClose
    exact .char (by decide) (by decide) (hname.append (.char (by decide) (by decide) .nil))
  | classType _ n =>
    rw [JavaType.toList_full_ofBinaryName]
    exact .char (by decide) (by decide)
      (n.unmarked_text.balanced.append (.char (by decide) (by decide) .nil))
  | array _ ih =>
    rw [JavaType.toList_full_arrayOf]
    exact .char (by decide) (by decide) ih
  | @applied _ n _ _ _ _ ih =>
    rw [JavaType.toList_full_applied]
    have htokens : Balanced _ := .flatMap fun a ha => balanced_token (ih a ha)
    exact .char (by decide) (by decide) (n.unmarked_text.balanced.append
      (.group htokens (.char (by decide) (by decide) .nil)))

theorem balanced_tokens {s : Scope} {inner : Bool} {arguments : List TypeArgument}
    (h : ∀ a ∈ arguments, ∀ u, a.type? = some u → s.Denotes inner u) :
    Balanced (TypeArgument.tokens arguments) :=
  .flatMap fun a ha => balanced_token fun u hu => (h a ha u hu).balanced_full

/-- The generic form is a single token. -/
theorem isToken_full {s : Scope} {inner : Bool} {t : JavaType} (h : s.Denotes inner t) :
    IsToken .signature t.full.toList := by
  induction h with
  | primitive _ p =>
    rw [JavaType.toList_full_primitive]
    exact .primitive p
  | typeVariable _ _ he _ =>
    rw [JavaType.toList_full_typeVariable, String.toList_ofList]
    exact .typeVariable rfl he
  | classType _ n =>
    rw [JavaType.toList_full_ofBinaryName]
    exact .classType n.unmarked_text.classBody.closes
  | array _ ih =>
    rw [JavaType.toList_full_arrayOf]
    exact .array ih
  | @applied _ n arguments _ _ h _ =>
    have hbody : ClassBody (n.text.toList ++ '<' :: (TypeArgument.tokens arguments ++ ['>'])) :=
      n.unmarked_text.classBody.append (.group (balanced_tokens h) .nil)
    rw [JavaType.toList_full_applied]
    have ht : IsToken .signature _ := .classType hbody.closes
    simpa using ht

/-- The generic form is read off the front of whatever it starts. -/
theorem scan_full {s : Scope} {inner : Bool} {t : JavaType} (h : s.Denotes inner t)
    (rest : List Char) :
    Token.scan .signature (t.full.toList ++ rest) = .ok (t.full.toList, rest) :=
  Token.scan_eq_ok_iff.mpr ⟨h.isToken_full, rfl⟩

/-- The first character of a generic form is none of those that mark wildcards. -/
theorem head_full {s : Scope} {inner : Bool} {t : JavaType} (h : s.Denotes inner t) :
    ∃ c cs, t.full.toList = c :: cs ∧ c ≠ '*' ∧ c ≠ '+' ∧ c ≠ '-' :=
  h.isToken_full.exists_cons

/-- The tokens of arguments are read one by one. -/
theorem argumentTokens_tokens {s : Scope} {inner : Bool} {arguments : List TypeArgument}
    (h : ∀ a ∈ arguments, ∀ u, a.type? = some u → s.Denotes inner u) :
    argumentTokens (TypeArgument.tokens arguments) = arguments.map fun a => a.token.toList := by
  have hcomplete : ∀ w ∈ arguments.map TypeArgument.written, w.IsComplete :=
    List.forall_mem_map.mpr fun a ha =>
      TypeArgument.isComplete_written fun u hu => (h a ha u hu).isToken_full
  rw [TypeArgument.tokens_eq, Argument.argumentTokens_flatMap hcomplete, List.map_map]
  exact List.map_congr_left fun a _ => a.toList_token.symm

/-- Arguments with the same generic forms one after another have the same generic forms one by
    one. -/
theorem map_token_eq {s : Scope} {inner inner' : Bool} {as bs : List TypeArgument}
    (ha : ∀ a ∈ as, ∀ u, a.type? = some u → s.Denotes inner u)
    (hb : ∀ b ∈ bs, ∀ u, b.type? = some u → s.Denotes inner' u)
    (h : TypeArgument.tokens as = TypeArgument.tokens bs) :
    as.map (fun a => a.token.toList) = bs.map fun b => b.token.toList := by
  rw [← argumentTokens_tokens ha, ← argumentTokens_tokens hb, h]

/-! ## From generic forms to types -/

theorem isDescriptor {s : Scope} {inner : Bool} {t : JavaType} (h : s.Denotes inner t) :
    IsDescriptor t.descriptor.toList := by
  induction h with
  | primitive _ p => exact JavaType.isDescriptor_primitive p
  | typeVariable inner _ _ h =>
    cases inner with
    | true => exact JavaType.isDescriptor_ofBinaryName .object
    | false => exact isDescriptor_of_evaluateName h
  | classType _ n => exact JavaType.isDescriptor_ofBinaryName n
  | array _ ih =>
    rw [JavaType.toList_descriptor_arrayOf]
    exact .array ih
  | @applied _ n => exact JavaType.isDescriptor_ofBinaryName n

/-- A type has a generic form of its own only if that differs from the descriptor. -/
theorem signature_cases {s : Scope} {inner : Bool} {t : JavaType} (h : s.Denotes inner t) :
    t.signature = none ∨ (t.signature = some t.full ∧ t.full ≠ t.descriptor) := by
  induction h with
  | primitive => exact .inl rfl
  | typeVariable inner hn he h =>
    refine .inr ⟨rfl, fun hf => ?_⟩
    have hl := congrArg String.toList hf
    rw [JavaType.toList_full_typeVariable] at hl
    obtain ⟨c, rest, hd, -, ht, -⟩ := (Denotes.typeVariable inner hn he h).isDescriptor.exists_cons
    exact ht (List.cons.inj (hl.trans hd)).1.symm
  | classType => exact .inl rfl
  | @array _ t _ ih =>
    -- A dimension is put in front of both forms, so that they differ as they did before.
    rcases ih with hn | ⟨hs, hne⟩
    · exact .inl (by simp [JavaType.arrayOf, hn])
    · have hsig : (JavaType.arrayOf t).signature = some (JavaType.arrayOf t).full := by
        unfold JavaType.full JavaType.arrayOf
        rw [hs]
        rfl
      refine .inr ⟨hsig, fun he => hne ?_⟩
      have hl := congrArg String.toList he
      rw [JavaType.toList_full_arrayOf, JavaType.toList_descriptor_arrayOf] at hl
      exact String.toList_injective (List.cons.inj hl).2
  | @applied _ n =>
    refine .inr ⟨rfl, fun he => ?_⟩
    have hl := congrArg String.toList he
    rw [JavaType.toList_full_applied] at hl
    have ht := List.append_cancel_left (List.cons.inj (hl.trans n.toList_descriptor)).2
    exact absurd (List.cons.inj ht).1 (by decide)

theorem isVariableSignature_cons_bracket (cs : List Char) :
    isVariableSignature ('[' :: cs) = isVariableSignature cs := by
  unfold isVariableSignature elementOf
  rw [List.dropWhile_cons_of_pos (by decide)]

theorem erasesTo_cons_bracket (signature descriptor : List Char) :
    erasesTo ('[' :: signature) ('[' :: descriptor) = erasesTo signature descriptor := by
  have hd : ∀ cs : List Char, dimensionsOf ('[' :: cs) = dimensionsOf cs + 1 := by
    intro cs
    unfold dimensionsOf
    rw [List.takeWhile_cons_of_pos (by decide), List.length_cons]
  have he : ∀ cs : List Char, elementOf ('[' :: cs) = elementOf cs := fun cs =>
    List.dropWhile_cons_of_pos (by decide)
  unfold erasesTo
  rw [isVariableSignature_cons_bracket, hd, hd, he, erasure?, if_pos rfl]
  cases erasure? signature <;> simp

theorem erasure?_class (n : BinaryName) {rest : List Char} (h : eraseClass 0 rest = [';']) :
    isVariableSignature ('L' :: (n.text.toList ++ rest)) = false ∧
      erasure? ('L' :: (n.text.toList ++ rest)) = some n.descriptor.toList := by
  refine ⟨rfl, ?_⟩
  rw [erasure?, if_neg (by decide), if_neg (by decide), if_pos rfl, eraseClass, if_neg (by decide),
    if_neg (by decide), if_pos rfl, if_neg (by decide), n.unmarked_text.eraseClass_append, h,
    n.toList_descriptor]

theorem eraseClass_arguments {s : Scope} {inner : Bool} {arguments : List TypeArgument}
    (h : ∀ a ∈ arguments, ∀ u, a.type? = some u → s.Denotes inner u) :
    eraseClass 0 ('<' :: (TypeArgument.tokens arguments ++ ['>', ';'])) = [';'] := by
  rw [eraseClass, if_pos rfl, (balanced_tokens h).eraseClass_append]
  rfl

/-- The descriptor that a generic form is given where bounds are not known. -/
def genericErasure? (signature : List Char) : Option (List Char) :=
  if isVariableSignature signature then
    some (signature.takeWhile (· = '[') ++ BinaryName.object.descriptor.toList)
  else erasure? signature

theorem ofGeneric?_eq (signature : List Char) :
    JavaType.ofGeneric? signature = (genericErasure? signature).bind fun descriptor =>
      (JavaType.ofSignature (String.ofList descriptor) (String.ofList signature)).toOption :=
  rfl

/-- A bracket in front is kept, whether a variable or a class stands behind it. -/
theorem genericErasure?_cons_bracket (cs : List Char) :
    genericErasure? ('[' :: cs) = (genericErasure? cs).map ('[' :: ·) := by
  unfold genericErasure?
  rw [isVariableSignature_cons_bracket]
  split
  · rw [List.takeWhile_cons_of_pos (by decide)]
    rfl
  · rw [erasure?, if_pos rfl]

/-- The descriptor that goes with a generic form, and that they go together. -/
theorem descriptor_of_full {s : Scope} {inner : Bool} {t : JavaType} (h : s.Denotes inner t)
    (hi : inner = true) :
    genericErasure? t.full.toList = some t.descriptor.toList ∧
      erasesTo t.full.toList t.descriptor.toList = true := by
  induction h with
  | primitive _ p => cases p <;> exact ⟨rfl, rfl⟩
  | typeVariable =>
    subst hi
    rw [JavaType.toList_full_typeVariable]
    refine ⟨rfl, ?_⟩
    show erasesTo _ BinaryName.object.descriptor.toList = true
    rw [BinaryName.toList_descriptor]
    rfl
  | classType _ n =>
    obtain ⟨hv, he⟩ := erasure?_class n (rfl : eraseClass 0 [';'] = [';'])
    rw [JavaType.toList_full_ofBinaryName]
    unfold erasesTo genericErasure?
    rw [hv, he]
    exact ⟨rfl, decide_eq_true rfl⟩
  | array _ ih =>
    obtain ⟨hd, he⟩ := ih hi
    rw [JavaType.toList_full_arrayOf, JavaType.toList_descriptor_arrayOf]
    refine ⟨?_, (erasesTo_cons_bracket _ _).trans he⟩
    rw [genericErasure?_cons_bracket, hd]
    rfl
  | @applied _ n arguments _ _ h _ =>
    obtain ⟨hv, he⟩ := erasure?_class n (eraseClass_arguments h)
    rw [JavaType.toList_full_applied]
    unfold erasesTo genericErasure?
    rw [hv, he]
    exact ⟨rfl, decide_eq_true rfl⟩

theorem ofGeneric?_full {s : Scope} {t : JavaType} (h : s.Denotes true t) :
    JavaType.ofGeneric? t.full.toList = some t := by
  obtain ⟨hd, he⟩ := h.descriptor_of_full rfl
  have hdesc : requireToken .descriptor t.descriptor = .ok () := by
    unfold requireToken
    rw [readToken_eq_ok.mpr h.isDescriptor.scan]
    rfl
  have hsig : requireToken .signature t.full = .ok () := by
    have hs := readToken_eq_ok.mpr (h.scan_full [])
    rw [List.append_nil] at hs
    unfold requireToken
    rw [hs]
    rfl
  rw [ofGeneric?_eq, hd, Option.bind_some, String.ofList_toList, String.ofList_toList]
  unfold JavaType.ofSignature JavaType.ofDescriptor
  simp only [bind, Except.bind, pure, Except.pure, hdesc, hsig]
  -- The two ways in which a generic form is kept are the two in which a type can have one.
  rcases h.signature_cases with hn | ⟨hs, hne⟩
  · have hf : t.full = t.descriptor := by
      unfold JavaType.full
      rw [hn]
      rfl
    rw [if_pos hf]
    show some (JavaType.mk t.descriptor none) = some t
    rw [← hn]
  · rw [if_neg hne, if_pos he]
    show some (JavaType.mk t.descriptor (some t.full)) = some t
    rw [← hs]

theorem ofToken?_token {s : Scope} {a : TypeArgument}
    (h : ∀ u, a.type? = some u → s.Denotes true u) :
    TypeArgument.ofToken? a.token.toList = some a := by
  rw [a.toList_token]
  exact TypeArgument.ofToken?_written
    (TypeArgument.isComplete_written fun u hu => (h u hu).isToken_full)
    fun u hu => (h u hu).ofGeneric?_full

theorem descriptor_eq_erasureOf {s : Scope} {inner : Bool} {t : JavaType} (h : s.Denotes inner t)
    (hi : inner = false) : t.descriptor.toList = s.erasureOf t.full.toList := by
  induction h with
  | primitive _ p => cases p <;> rfl
  | @typeVariable _ name bound _ _ h =>
    subst hi
    rw [JavaType.toList_full_typeVariable, erasureOf, if_neg (by decide), if_pos rfl,
      List.dropLast_concat, String.ofList_toList, h]
    rfl
  | classType _ n =>
    obtain ⟨-, he⟩ := erasure?_class n (rfl : eraseClass 0 [';'] = [';'])
    rw [JavaType.toList_full_ofBinaryName, erasureOf, if_neg (by decide), if_neg (by decide), he]
    rfl
  | array _ ih =>
    rw [JavaType.toList_full_arrayOf, JavaType.toList_descriptor_arrayOf, erasureOf, if_pos rfl,
      ih hi]
  | @applied _ n arguments _ _ h _ =>
    obtain ⟨-, he⟩ := erasure?_class n (eraseClass_arguments h)
    rw [JavaType.toList_full_applied, erasureOf, if_neg (by decide), if_neg (by decide), he]
    rfl

/-- Types that expressions mean are equal if their generic forms are. -/
theorem eq_of_full {s : Scope} {t u : JavaType} (ht : s.Denotes false t) (hu : s.Denotes false u)
    (h : t.full = u.full) : t = u := by
  have hd : t.descriptor = u.descriptor := by
    refine String.toList_injective ?_
    rw [ht.descriptor_eq_erasureOf rfl, hu.descriptor_eq_erasureOf rfl, h]
  have hplain : ∀ {v : JavaType}, v.signature = none → v.full = v.descriptor := by
    intro v hv
    unfold JavaType.full
    rw [hv]
    rfl
  have hs : t.signature = u.signature := by
    rcases ht.signature_cases with hts | ⟨hts, htne⟩ <;>
      rcases hu.signature_cases with hus | ⟨hus, hune⟩
    · rw [hts, hus]
    · exact absurd (h.symm.trans ((hplain hts).trans hd)) hune
    · exact absurd (h.trans ((hplain hus).trans hd.symm)) htne
    · rw [hts, hus, h]
  cases t
  cases u
  exact JavaType.mk.injEq .. ▸ ⟨hd, hs⟩

/-! ## Type arguments -/

theorem typeArguments_applied {s : Scope} {n : BinaryName} {arguments : List TypeArgument}
    (h : ∀ a ∈ arguments, ∀ u, a.type? = some u → s.Denotes true u) :
    (JavaType.applied n arguments).typeArguments = arguments := by
  have hread : ∀ bs : List TypeArgument, (∀ b ∈ bs, ∀ u, b.type? = some u → s.Denotes true u) →
      (bs.map fun b => b.token.toList).filterMap TypeArgument.ofToken? = bs := by
    intro bs hbs
    induction bs with
    | nil => rfl
    | cons b bs ih =>
      obtain ⟨hb, hbs⟩ := List.forall_mem_cons.mp hbs
      rw [List.map_cons, List.filterMap_cons_some (ofToken?_token hb), ih hbs]
  unfold JavaType.applied
  rw [JavaType.typeArguments_of_class rfl (String.toList_ofList),
    JavaType.lastGroup?_class n (balanced_tokens h), Option.elim_some]
  rw [argumentTokens_tokens h, hread arguments h]

end Denotes
end Scope
end JvmWeave
