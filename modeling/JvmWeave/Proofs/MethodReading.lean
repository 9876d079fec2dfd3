import Mathlib.Data.List.Forall2
import JvmWeave.Proofs.TopLevel
import JvmWeave.Proofs.ValidType

/-!
# Reading method types

What the reader of method types accepts is told by the tokens of the two texts: how they are cut,
and which types they give.

The reader is a sequence of steps in `Except`, each of which may fail.  Here each step has an `↔`
for its success, and `parse_none_eq_ok_iff` and `parse_some_eq_ok_iff` are put together from these.
They are the only place that follows the order of the steps.  What is read is told by what it says
in the end: the descriptors of the parameters are the tokens of the descriptor, and their generic
forms those of the signature if these are as many.

Lists of types are read by `mapM`, and the types that come out are known by their two forms, so a
list of them is known by two lists of texts.
-/

set_option autoImplicit false

namespace JvmWeave

open Text

theorem mapM_eq_ok_iff {ε α β : Type} {f : α → Except ε β} {as : List α} {bs : List β} :
    as.mapM f = .ok bs ↔ List.Forall₂ (fun a b => f a = .ok b) as bs := by
  induction as generalizing bs with
  | nil => cases bs <;> simp [pure, Except.pure]
  | cons a as ih =>
    simp only [List.mapM_cons, bind_eq_ok, ih]
    constructor
    · rintro ⟨b, hb, bs, hbs, he⟩
      cases he
      exact .cons hb hbs
    · rintro (_ | ⟨hb, hbs⟩)
      exact ⟨_, hb, _, hbs, rfl⟩

/-! ## Tokens of a list -/

theorem IsToken.ne_nil {dialect : Dialect} {cs : List Char} (h : IsToken dialect cs) :
    cs ≠ [] := by
  cases h <;> simp

theorem readTokens_eq_ok_iff {dialect : Dialect} {text : List Char} {tokens : List (List Char)} :
    readTokens dialect text = .ok tokens ↔
      (∀ token ∈ tokens, IsToken dialect token) ∧ text = tokens.flatten := by
  constructor
  · intro h
    fun_induction readTokens dialect text generalizing tokens with
    | case1 =>
      cases h
      exact ⟨by simp, rfl⟩
    | case2 => cases h
    | case3 => cases h
    | case4 text _ token rest hr more _ ih =>
      cases h
      obtain ⟨hmore, rfl⟩ := ih ‹_›
      obtain ⟨ht, rfl⟩ := readToken_eq_ok_iff.mp hr
      exact ⟨List.forall_mem_cons.mpr ⟨ht, hmore⟩, rfl⟩
  · rintro ⟨h, rfl⟩
    induction tokens with
    | nil =>
      rw [readTokens]
      rfl
    | cons token tokens ih =>
      obtain ⟨ht, htokens⟩ := List.forall_mem_cons.mp h
      have hr : readToken dialect (token ++ tokens.flatten) = .ok (token, tokens.flatten) :=
        readToken_eq_ok_iff.mpr ⟨ht, rfl⟩
      rw [List.flatten_cons, readTokens, if_neg (by simp [ht.ne_nil])]
      split
      · next he => cases hr.symm.trans he
      · next he =>
        cases hr.symm.trans he
        rw [ih htokens]

namespace MethodType

/-- The text of a method type with these tokens. -/
def textOf (parameters : List String) (result : String) : List Char :=
  '(' :: (parameters.flatMap String.toList ++ ')' :: result.toList)

theorem splitTypes_eq_ok_iff {dialect : Dialect} {input : String} {tokens : List String} :
    (splitTypes dialect input).map (·.getD []) = .ok tokens ↔
      (∀ token ∈ tokens, IsToken dialect token.toList) ∧
        input.toList = tokens.flatMap String.toList := by
  have hread : (splitTypes dialect input).map (·.getD []) = .ok tokens ↔
      readTokens dialect input.toList = .ok (tokens.map String.toList) := by
    unfold splitTypes
    cases hr : readTokens dialect input.toList with
    | error e => simp [Except.map]
    | ok found =>
      have hmap : found.map String.ofList = tokens ↔ found = tokens.map String.toList := by
        constructor
        · rintro rfl
          simp
        · rintro rfl
          simp
      simp only [Except.ok.injEq, ← hmap]
      split
      · next hnil => simp [hnil.2, Except.map]
      · simp [Except.map]
  rw [hread, readTokens_eq_ok_iff, List.forall_mem_map, List.flatMap_def]

theorem splitMethod_eq_ok_iff {dialect : Dialect} {input : List Char} {parameters : List String}
    {result : String} :
    splitMethod dialect input = .ok (parameters, result) ↔
      (∀ token ∈ result :: parameters, IsToken dialect token.toList) ∧
        Uncut ')' 0 (parameters.flatMap String.toList) ∧ input = textOf parameters result := by
  constructor
  · intro h
    unfold splitMethod at h
    dsimp only at h
    split at h
    · cases h
    · next inner hopen =>
      obtain rfl := stripPrefix?_eq_some_iff.mp hopen
      split at h
      · cases h
      · next list after hcut =>
        obtain ⟨rfl, hlist⟩ := cutTopLevel_eq_some_iff.mp hcut
        obtain ⟨tokens, htokens, h⟩ := bind_eq_ok.mp h
        split at h
        · cases h
        · next token rest hr =>
          split at h
          · next hrest =>
            obtain ⟨ht, he⟩ := readToken_eq_ok_iff.mp hr
            rw [hrest, List.append_nil] at he
            subst he
            cases h
            have hsplit := splitTypes_eq_ok_iff.mp (congrArg (Except.map (·.getD [])) htokens)
            rw [String.toList_ofList] at hsplit
            obtain ⟨hall, rfl⟩ := hsplit
            refine ⟨List.forall_mem_cons.mpr ⟨?_, hall⟩, hlist, ?_⟩
            · rwa [String.toList_ofList]
            · unfold textOf
              rw [String.toList_ofList]
              rfl
          · cases h
  · rintro ⟨h, hlist, rfl⟩
    obtain ⟨hresult, hall⟩ := List.forall_mem_cons.mp h
    have hcut : cutTopLevel ')' 0 (parameters.flatMap String.toList ++ ')' :: result.toList) =
        some (parameters.flatMap String.toList, result.toList) :=
      cutTopLevel_eq_some_iff.mpr ⟨rfl, hlist⟩
    have hr : readToken dialect result.toList = .ok (result.toList, []) :=
      readToken_eq_ok_iff.mpr ⟨hresult, by simp⟩
    have htypes := splitTypes_eq_ok_iff.mpr
      ⟨hall, String.toList_ofList (l := parameters.flatMap String.toList)⟩
    cases hsplit : splitTypes dialect (String.ofList (parameters.flatMap String.toList)) with
    | error e => rw [hsplit] at htypes; cases htypes
    | ok tokens =>
      rw [hsplit] at htypes
      have htokens : tokens.getD [] = parameters := Except.ok.inj htypes
      unfold splitMethod textOf
      simp only [stripPrefix?, if_true, hcut, hsplit, hr, htokens, bind, Except.bind,
        String.ofList_toList]

end MethodType

/-! ## Lists of types -/

theorem forall₂_and_iff {α β : Type} {f : β → α} {p : β → Prop} {as : List α} {bs : List β} :
    List.Forall₂ (fun a b => p b ∧ f b = a) as bs ↔ (∀ b ∈ bs, p b) ∧ bs.map f = as := by
  constructor
  · intro h
    induction h with
    | nil => simp
    | cons h _ ih => exact ⟨List.forall_mem_cons.mpr ⟨h.1, ih.1⟩, by rw [List.map_cons, h.2, ih.2]⟩
  · rintro ⟨h, rfl⟩
    induction bs with
    | nil => exact .nil
    | cons b bs ih =>
      obtain ⟨hb, hbs⟩ := List.forall_mem_cons.mp h
      exact .cons ⟨hb, rfl⟩ (ih hbs)

namespace JavaType

theorem ofDescriptor_eq_ok_iff_isValid {descriptor : String} {t : JavaType} :
    ofDescriptor descriptor = .ok t ↔
      (t.IsValid ∧ t.signature = none) ∧ t.descriptor = descriptor := by
  constructor
  · intro h
    obtain ⟨-, rfl⟩ := ofDescriptor_eq_ok_iff.mp h
    exact ⟨⟨h, rfl⟩, rfl⟩
  · rintro ⟨⟨h, hs⟩, rfl⟩
    unfold IsValid at h
    rwa [hs] at h

theorem ofSignature_eq_ok_iff_isValid {descriptor signature : String} {t : JavaType} :
    ofSignature descriptor signature = .ok t ↔
      t.IsValid ∧ (t.descriptor, t.full) = (descriptor, signature) := by
  constructor
  · intro h
    have hv := isValid_of_ofSignature h
    obtain ⟨-, -, ht⟩ := ofSignature_eq_ok_iff.mp h
    split at ht
    · next he =>
      subst ht
      exact ⟨hv, by rw [he]; rfl⟩
    · rw [ht.2] at hv ⊢
      exact ⟨hv, rfl⟩
  · rintro ⟨h, he⟩
    cases he
    cases hs : t.signature with
    | some s =>
      unfold IsValid at h
      unfold full
      rwa [hs] at h ⊢
    | none =>
      obtain ⟨hd, ht⟩ := ofDescriptor_eq_ok_iff.mp
        (ofDescriptor_eq_ok_iff_isValid.mpr ⟨⟨h, hs⟩, rfl⟩)
      rw [full_of_none hs]
      exact ofSignature_eq_ok_iff.mpr ⟨hd, hd.signature, by rw [if_pos rfl]; exact ht⟩

theorem mapM_ofDescriptor_eq_ok_iff {descriptors : List String} {types : List JavaType} :
    descriptors.mapM ofDescriptor = .ok types ↔
      (∀ t ∈ types, t.IsValid ∧ t.signature = none) ∧ types.map (·.descriptor) = descriptors := by
  simp only [mapM_eq_ok_iff, ofDescriptor_eq_ok_iff_isValid, forall₂_and_iff]

theorem mapM_ofSignature_eq_ok_iff {descriptors signatures : List String} {types : List JavaType}
    (hl : signatures.length = descriptors.length) :
    ((descriptors.zip signatures).mapM fun (d, s) => ofSignature d s) = .ok types ↔
      (∀ t ∈ types, t.IsValid) ∧ types.map (·.descriptor) = descriptors ∧
        types.map (·.full) = signatures := by
  simp only [mapM_eq_ok_iff, ofSignature_eq_ok_iff_isValid, forall₂_and_iff]
  refine and_congr_right fun _ => ⟨fun h => ⟨?_, ?_⟩, ?_⟩
  · simpa [Function.comp_def, List.map_fst_zip hl.ge] using congrArg (List.map Prod.fst) h
  · simpa [Function.comp_def, List.map_snd_zip hl.le] using congrArg (List.map Prod.snd) h
  · rintro ⟨rfl, rfl⟩
    exact List.zip_map'.symm

end JavaType

namespace MethodType

/-! ## What is read -/

theorem assembled_eq_ok_iff {group : Option String} {types : Except Malformed (List JavaType)}
    {type : Except Malformed JavaType} {m : MethodType} :
    (types >>= fun ts => type >>= fun t => pure ⟨group, ts, t⟩) = .ok m ↔
      types = .ok m.parameters ∧ type = .ok m.result ∧ m.typeParameters = group := by
  simp only [bind_eq_ok]
  constructor
  · rintro ⟨ts, hts, t, ht, hm⟩
    cases hm
    exact ⟨hts, ht, rfl⟩
  · rintro ⟨hts, ht, rfl⟩
    exact ⟨_, hts, _, ht, rfl⟩

theorem parse_none_eq_ok_iff {descriptor : String} {m : MethodType} :
    parse descriptor none = .ok m ↔
      splitMethod .descriptor descriptor.toList =
          .ok (m.parameters.map (·.descriptor), m.result.descriptor) ∧
        m.typeParameters = none ∧
          ∀ t ∈ m.result :: m.parameters, t.IsValid ∧ t.signature = none := by
  unfold parse
  rw [bind_eq_ok, Prod.exists, List.forall_mem_cons]
  simp only [assembled_eq_ok_iff, JavaType.mapM_ofDescriptor_eq_ok_iff,
    JavaType.ofDescriptor_eq_ok_iff_isValid]
  constructor
  · rintro ⟨_, _, hsplit, ⟨htypes, rfl⟩, ⟨htype, rfl⟩, hgroup⟩
    exact ⟨hsplit, hgroup, htype, htypes⟩
  · rintro ⟨hsplit, hgroup, htype, htypes⟩
    exact ⟨_, _, hsplit, ⟨htypes, rfl⟩, ⟨htype, rfl⟩, hgroup⟩

theorem parse_some_eq_ok_iff {descriptor signature : String} {m : MethodType} :
    parse descriptor (some signature) = .ok m ↔ ∃ group rest tokens,
      splitMethod .descriptor descriptor.toList =
          .ok (m.parameters.map (·.descriptor), m.result.descriptor) ∧
        splitTypeParameters signature.toList = .ok (group, rest) ∧
        m.typeParameters = group.map String.ofList ∧
        splitMethod .signature (withoutThrown rest) = .ok (tokens, m.result.full) ∧
        (∀ t ∈ m.result :: m.parameters, t.IsValid) ∧
        if tokens.length = m.parameters.length then m.parameters.map (·.full) = tokens
        else ∀ p ∈ m.parameters, p.signature = none := by
  unfold parse
  simp only [@bind_eq_ok _ _ _ (splitMethod _ _), @bind_eq_ok _ _ _ (splitTypeParameters _),
    Prod.exists, List.forall_mem_cons]
  constructor
  · rintro ⟨parameters, result, hsplit, group, rest, hgroup, tokens, genericResult, hgeneric, h⟩
    split at h
    · next hl =>
      obtain ⟨htypes, htype, hparameters⟩ := assembled_eq_ok_iff.mp h
      obtain ⟨hall, rfl, rfl⟩ := (JavaType.mapM_ofSignature_eq_ok_iff hl).mp htypes
      obtain ⟨hresult, he⟩ := JavaType.ofSignature_eq_ok_iff_isValid.mp htype
      cases he
      exact ⟨group, rest, _, hsplit, hgroup, hparameters, hgeneric, ⟨hresult, hall⟩, by simp⟩
    · next hl =>
      obtain ⟨htypes, htype, hparameters⟩ := assembled_eq_ok_iff.mp h
      obtain ⟨hall, rfl⟩ := JavaType.mapM_ofDescriptor_eq_ok_iff.mp htypes
      obtain ⟨hresult, he⟩ := JavaType.ofSignature_eq_ok_iff_isValid.mp htype
      cases he
      refine ⟨group, rest, tokens, hsplit, hgroup, hparameters, hgeneric,
        ⟨hresult, fun t ht => (hall t ht).1⟩, ?_⟩
      rw [if_neg (by simpa using hl)]
      exact fun t ht => (hall t ht).2
  · rintro ⟨group, rest, tokens, hsplit, hgroup, hparameters, hgeneric, ⟨hresult, hall⟩, h⟩
    refine ⟨_, _, hsplit, group, rest, hgroup, tokens, _, hgeneric, ?_⟩
    have htype : JavaType.ofSignature m.result.descriptor m.result.full = .ok m.result :=
      JavaType.ofSignature_eq_ok_iff_isValid.mpr ⟨hresult, rfl⟩
    rw [List.length_map]
    split at h
    · next hl =>
      rw [if_pos hl, assembled_eq_ok_iff, JavaType.mapM_ofSignature_eq_ok_iff (by simpa using hl)]
      exact ⟨⟨hall, rfl, h⟩, htype, hparameters⟩
    · next hl =>
      rw [if_neg hl, assembled_eq_ok_iff, JavaType.mapM_ofDescriptor_eq_ok_iff]
      exact ⟨⟨fun t ht => ⟨hall t ht, h t ht⟩, rfl⟩, htype, hparameters⟩

/-- Both forms only make valid types. -/
theorem isValid_of_mem_parse {descriptor : String} {signature : Option String} {m : MethodType}
    (h : parse descriptor signature = .ok m) : ∀ t ∈ m.result :: m.parameters, t.IsValid := by
  cases signature with
  | none => exact fun t ht => ((parse_none_eq_ok_iff.mp h).2.2 t ht).1
  | some text =>
    obtain ⟨_, _, _, _, _, _, _, hall, _⟩ := parse_some_eq_ok_iff.mp h
    exact hall

theorem splitMethod_of_parse {descriptor : String} {signature : Option String} {m : MethodType}
    (h : parse descriptor signature = .ok m) :
    splitMethod .descriptor descriptor.toList =
      .ok (m.parameters.map (·.descriptor), m.result.descriptor) := by
  cases signature with
  | none => exact (parse_none_eq_ok_iff.mp h).1
  | some text =>
    obtain ⟨_, _, _, hsplit, _⟩ := parse_some_eq_ok_iff.mp h
    exact hsplit

end MethodType
end JvmWeave
