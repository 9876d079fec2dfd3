import JvmWeave.Proofs.Naming

/-!
# How names are read

For each shape of a type, what has to hold for its name to be read as a type of the same generic
form.  A list of arguments is the only place where the names within a name could be cut differently:
as many arguments are read as were written, so each of them is a single one.

The comparison is by generic forms and not by types.  The variables in the arguments of a class have
lost their bounds, and reading the name of one finds the bound again.

All conditions are `↔`.  An array is read back if its elements are, a class if its short name means
it, and one with arguments if moreover each argument is read back on its own.  A union never is.
-/

set_option autoImplicit false

namespace JvmWeave

open Text

namespace Scope

/-! ## Names that are read -/

/-- What is read for the name of the type has the same generic form.  Only the bounds of type
    variables could be others. -/
def Rereads (s : Scope) (t : JavaType) : Prop :=
  ∃ u, s.typeOf (trim (s.nameOf t).toList) = .ok u ∧ u.full = t.full

theorem typeOf_keywordName (s : Scope) (p : Primitive) :
    s.typeOf (trim p.keyword.toList) = .ok (.primitive p) := by
  have htrim : trim p.keyword.toList = p.keyword.toList :=
    trim_of_not_blank (notBlank_of_all (by cases p <;> decide))
  rw [htrim]
  refine typeOf_keyword ?_ ?_
  · cases p <;> rfl
  · rw [String.ofList_toList, Primitive.ofKeyword?_keyword]

theorem rereads_primitive (s : Scope) (p : Primitive) : s.Rereads (.primitive p) := by
  refine ⟨.primitive p, ?_, rfl⟩
  rw [nameOf_of_primitive (JavaType.primitive?_primitive p)]
  exact typeOf_keywordName s p

/-- A type variable is taken for its bound if that is primitive. -/
theorem rereads_typeVariable {s : Scope} {name : List Char} {bound bound' : JavaType}
    (hn : PlainName name)
    (h : s.evaluateName [] (String.ofList name) = .ok (.typeVariable (String.ofList name) bound)) :
    s.Rereads (.typeVariable (String.ofList name) bound') ↔ bound'.primitive? = none := by
  unfold Rereads
  cases hp : bound'.primitive? with
  | some p =>
    -- The keyword is read as the primitive type, whose generic form is a single letter.
    refine iff_of_false ?_ nofun
    rintro ⟨u, hu, hf⟩
    rw [nameOf_of_primitive (t := .typeVariable _ _) hp, typeOf_keywordName] at hu
    cases hu
    have hl := congrArg String.toList hf
    rw [JavaType.toList_full_primitive, JavaType.toList_full_typeVariable] at hl
    simp at hl
  | none =>
    refine iff_of_true ⟨.typeVariable (String.ofList name) bound, ?_, rfl⟩ rfl
    rw [nameOf_typeVariable hp, String.toList_ofList, trim_of_not_blank hn.notBlank,
      typeOf_named hn.noArray hn.noKeyword (splitGeneric_of_plain hn.noOpen hn.noClose), h]

theorem trim_array (name : List Char) :
    trim (name ++ ['[', ']']) = trimStart name ++ ['[', ']'] := by
  unfold trim
  rw [trimStart_append_cons _ _ (by decide), trimEnd_append_cons _ _ (by decide)]
  rfl

theorem rereads_arrayOf {s : Scope} {t : JavaType} (h : '|' ∉ t.descriptor.toList) :
    s.Rereads (.arrayOf t) ↔ s.Rereads t := by
  have htext : s.typeOf (trim (s.nameOf (.arrayOf t)).toList) =
      (s.typeOf (trim (s.nameOf t).toList)).map .arrayOf := by
    rw [nameOf_arrayOf h, String.toList_append]
    show s.typeOf (trim ((s.nameOf t).toList ++ ['[', ']'])) = _
    rw [trim_array, typeOf_array (stripSuffix?_eq_some_iff.mpr rfl)]
    rfl
  unfold Rereads
  rw [htext]
  cases s.typeOf (trim (s.nameOf t).toList) with
  | error e => simp [Except.map]
  | ok u =>
    have hfull : (JavaType.arrayOf u).full = (JavaType.arrayOf t).full ↔ u.full = t.full := by
      rw [← String.toList_inj, ← String.toList_inj, JavaType.toList_full_arrayOf,
        JavaType.toList_full_arrayOf, List.cons.injEq, and_iff_right rfl]
    simp [Except.map, hfull]

/-- No blank stands before a mark in a text that means a type without arguments. -/
theorem notBlank_of_typeOf {s : Scope} {text : List Char} {t : JavaType}
    (h : s.typeOf text = .ok t) (ho : '<' ∉ text) {before after : List Char}
    (he : text = before ++ '|' :: after) : ∀ c ∈ before, isBlank c = false := by
  -- By length: dimensions are taken off the end until the mark is in the name itself.
  induction hl : text.length using Nat.strong_induction_on generalizing text after t with
  | _ length ih =>
    subst hl
    cases ha : stripSuffix? ['[', ']'] text with
    | some element =>
      have hs := stripSuffix?_eq_some_iff.mp ha
      obtain ⟨rest, rfl⟩ : ∃ rest, element = before ++ '|' :: rest := by
        rcases List.append_eq_append_iff.mp (he.symm.trans hs) with ⟨as, hb, hr⟩ | ⟨bs, hb, hr⟩
        · cases as with
          | nil => cases hr
          | cons a as =>
            rw [List.cons_append] at hr
            obtain ⟨rfl, hr⟩ := List.cons.inj hr
            exact ⟨as, hb⟩
        · rcases bs with _ | ⟨b, _ | ⟨b', bs⟩⟩ <;> simp at hr
      rw [typeOf_array ha, trimEnd_append_cons _ _ (by decide)] at h
      cases hu : s.typeOf (before ++ '|' :: trimEnd rest) with
      | error e => rw [hu] at h; cases h
      | ok u =>
        refine ih _ ?_ hu ?_ rfl rfl
        · have hlen := length_trimEnd_le rest
          rw [hs]
          simp
          omega
        · rw [hs] at ho
          intro hm
          refine ho (List.mem_append_left _ ?_)
          rcases List.mem_append.mp hm with hm | hm
          · exact List.mem_append_left _ hm
          · refine List.mem_append_right _ ?_
            rcases List.mem_cons.mp hm with hm | hm
            · cases hm
            · exact List.mem_cons_of_mem _ (mem_of_mem_trimEnd hm)
    | none =>
      cases hk : Primitive.ofKeyword? (String.ofList text) with
      | some p =>
        have hbar : '|' ∈ text := by
          rw [he]
          simp
        rw [ofKeyword?_eq_none (fun p => by cases p <;> decide) hbar] at hk
        cases hk
      | none =>
        rcases hg : splitGeneric text with cause | ⟨head, _ | list⟩
        · rw [typeOf_malformed ha hk hg] at h
          cases h
        · rw [typeOf_named ha hk hg] at h
          obtain ⟨rfl, -, -⟩ := splitGeneric_none hg
          have hb := (evaluateName_eq_ok h).1.2
          rw [String.toList_ofList, he] at hb
          exact fun c hc => hb c (List.mem_append_left _ hc)
        · exact absurd (open_mem_of_splitGeneric hg) ho

/-- A union is not read back, as its name has blanks inside. -/
theorem not_rereads_union {s : Scope} {t : JavaType} (hd : IsDescriptor t.descriptor.toList)
    (h : '|' ∈ t.descriptor.toList) (hp : t.primitive? = none) (hv : t.variableName? = none) :
    ¬s.Rereads t := by
  rintro ⟨u, hu, -⟩
  obtain ⟨c, before, after, hc, hname⟩ := JavaType.exists_javaName_union hd h
  have htrim : trim (s.nameOf t).toList = (c :: (before ++ [' '])) ++ '|' :: trimEnd after := by
    have hstart : trimStart (c :: (before ++ ' ' :: '|' :: after)) =
        (c :: (before ++ [' '])) ++ '|' :: after := by
      rw [← List.nil_append (c :: _), trimStart_append_cons _ _ hc]
      simp [trimStart]
    rw [nameOf_union h hp hv, hname, trim, hstart, trimEnd_append_cons _ _ (by decide)]
  have hopen : '<' ∉ trim (s.nameOf t).toList := by
    rw [nameOf_union h hp hv]
    exact mt mem_of_mem_trim (JavaType.not_mem_javaName_union (.inl rfl) hd h)
  have hblank := notBlank_of_typeOf hu hopen htrim ' ' (by simp)
  cases hblank

/-! ## Classes -/

theorem eq_ofBinaryName_of_full {s : Scope} {name : String} {u : JavaType} {n : BinaryName}
    (h : s.evaluateName [] name = .ok u) (hf : u.full = (JavaType.ofBinaryName n).full) :
    u = .ofBinaryName n := by
  rcases (evaluateName_eq_ok h).2 with ⟨m, -, -, rfl⟩ | ⟨p, bound, -, rfl⟩
  · rw [JavaType.eq_of_full_ofBinaryName hf]
  · have hl := congrArg String.toList hf
    rw [JavaType.toList_full_typeVariable, JavaType.toList_full_ofBinaryName] at hl
    exact absurd (List.cons.inj hl).1 (by decide)

theorem rereads_ofBinaryName {s : Scope} {n : BinaryName} (hn : '|' ∉ n.text.toList) :
    s.Rereads (.ofBinaryName n) ↔ s.NamesClass (trim (s.classNameOf n)) n ∧
      Primitive.ofKeyword? (String.ofList (trim (s.classNameOf n))) = none := by
  have hmem : ∀ {c : Char}, BinaryName.isReserved c = true → c ≠ '.' →
      c ∉ trim (s.classNameOf n) := fun hc hd => mt mem_of_mem_trim (not_mem_classNameOf hc hd)
  have harray : stripSuffix? ['[', ']'] (trim (s.classNameOf n)) = none :=
    stripSuffix?_eq_none (c := '[') (by decide) (hmem rfl (by decide))
  have hgeneric : splitGeneric (trim (s.classNameOf n)) = .ok (trim (s.classNameOf n), none) :=
    splitGeneric_of_plain (hmem rfl (by decide)) (hmem rfl (by decide))
  unfold Rereads
  rw [nameOf_ofBinaryName hn, namesClass_iff]
  cases hk : Primitive.ofKeyword? (String.ofList (trim (s.classNameOf n))) with
  | some p =>
    refine iff_of_false ?_ (fun h => nomatch h.2)
    rintro ⟨u, hu, hf⟩
    rw [typeOf_keyword harray hk] at hu
    cases hu
    have hl := congrArg String.toList hf
    rw [JavaType.toList_full_primitive, JavaType.toList_full_ofBinaryName] at hl
    simp at hl
  | none =>
    rw [typeOf_named harray hk hgeneric, and_iff_left rfl]
    constructor
    · rintro ⟨u, hu, hf⟩
      rw [hu, eq_ofBinaryName_of_full hu hf]
    · intro h
      exact ⟨_, h, rfl⟩

/-! ## Type arguments -/

/-- What is read for the name of the argument has the same generic form. -/
def RereadsArgument (s : Scope) (a : TypeArgument) : Prop :=
  ∃ b, s.argumentOf (trim (s.argumentNameOf a).toList) = .ok b ∧ b.token = a.token

theorem typeOf_nil (s : Scope) (t : JavaType) : s.typeOf [] ≠ .ok t := by
  intro h
  have hg : splitGeneric [] = .ok ([], none) := rfl
  rw [typeOf_named rfl rfl hg] at h
  exact (evaluateName_eq_ok h).1.1 rfl

/-- The generic form of a type is not that of a wildcard. -/
theorem Denotes.token_ne {s : Scope} {inner : Bool} {u v : JavaType} (h : s.Denotes inner u) :
    u.full ≠ "*" ∧ u.full ≠ "+" ++ v.full ∧ u.full ≠ "-" ++ v.full := by
  obtain ⟨c, cs, hc, hstar, hplus, hminus⟩ := h.head_full
  refine ⟨?_, ?_, ?_⟩ <;> intro he <;> rw [he] at hc
  · exact hstar (List.cons.inj hc).1.symm
  · rw [String.toList_append] at hc
    exact hplus (List.cons.inj hc).1.symm
  · rw [String.toList_append] at hc
    exact hminus (List.cons.inj hc).1.symm

theorem exists_map_eq_ok {s : Scope} {type : List Char} {f : JavaType → TypeArgument}
    {P : TypeArgument → Prop} :
    (∃ b, (s.typeOf type).map f = .ok b ∧ P b) ↔ ∃ v, s.typeOf type = .ok v ∧ P (f v) := by
  cases s.typeOf type <;> simp [Except.map]

theorem rereadsArgument_just {s : Scope} {u : JavaType} (hu : s.Denotes true u) :
    s.RereadsArgument (.just u) ↔
      splitWildcard (trim (s.nameOf u).toList) = .just (trim (s.nameOf u).toList) ∧
        s.Rereads u := by
  unfold RereadsArgument Rereads
  show (∃ b, s.argumentOf (trim (s.nameOf u).toList) = .ok b ∧ b.token = u.full) ↔ _
  rw [argumentOf_eq]
  cases hw : splitWildcard (trim (s.nameOf u).toList) with
  | any =>
    refine iff_of_false ?_ nofun
    rintro ⟨b, hb, ht⟩
    cases hb
    exact (hu.token_ne (v := u)).1 ht.symm
  | just type =>
    rw [splitWildcard_just hw, and_iff_right rfl]
    exact exists_map_eq_ok
  | subtypesOf type =>
    refine iff_of_false ?_ nofun
    intro h
    obtain ⟨v, -, ht⟩ := exists_map_eq_ok.mp h
    exact hu.token_ne.2.1 ht.symm
  | supertypesOf type =>
    refine iff_of_false ?_ nofun
    intro h
    obtain ⟨v, -, ht⟩ := exists_map_eq_ok.mp h
    exact hu.token_ne.2.2 ht.symm

/-- A wildcard with a bound is read back if its bound is. -/
theorem rereadsArgument_bounded {s : Scope} (hs : s.WritableParameters) {u : JavaType}
    (f : JavaType → TypeArgument) (beginning : List Char) (sign : String)
    (htext : (s.argumentNameOf (f u)).toList = beginning ++ (s.nameOf u).toList)
    (htoken : ∀ v, (f v).token = sign ++ v.full)
    (hsign : ∀ v, s.Denotes false v → v.full ≠ sign ++ u.full)
    (hblank : (∀ c ∈ (s.nameOf u).toList, isBlank c = true) → ∃ type,
      splitWildcard (trim (beginning ++ (s.nameOf u).toList)) = .just type)
    (hname : (∃ c ∈ (s.nameOf u).toList, isBlank c = false) →
      s.argumentOf (trim (beginning ++ (s.nameOf u).toList)) =
        (s.typeOf (trim (s.nameOf u).toList)).map f) :
    s.RereadsArgument (f u) ↔ s.Rereads u := by
  unfold RereadsArgument Rereads
  rw [htext, htoken]
  by_cases hb : ∀ c ∈ (s.nameOf u).toList, isBlank c = true
  · -- Without a name behind it the wildcard is read as a type, whose generic form has no sign.
    obtain ⟨type, hw⟩ := hblank hb
    rw [argumentOf_eq, hw, trim_of_blank hb]
    refine iff_of_false ?_ fun ⟨v, hv, _⟩ => typeOf_nil s v hv
    intro h
    obtain ⟨v, hv, ht⟩ := exists_map_eq_ok.mp h
    exact hsign v (denotes_of_typeOf hs hv) ht
  · rw [hname (by simpa using hb), exists_map_eq_ok]
    have hfull : ∀ v : JavaType, (f v).token = sign ++ u.full ↔ v.full = u.full := fun v => by
      rw [htoken, String.append_right_inj]
    simp only [hfull]

theorem rereadsArgument_iff {s : Scope} (hs : s.WritableParameters) {a : TypeArgument}
    (ha : ∀ u, a.type? = some u → s.Denotes true u) :
    s.RereadsArgument a ↔
      (∀ u, a = .just u →
        splitWildcard (trim (s.nameOf u).toList) = .just (trim (s.nameOf u).toList)) ∧
      ∀ u, a.type? = some u → s.Rereads u := by
  cases a with
  | any =>
    have htext : trim (s.argumentNameOf .any).toList = ['?'] := by
      show trim "?".toList = ['?']
      rfl
    refine iff_of_true ⟨.any, ?_, rfl⟩ ⟨nofun, nofun⟩
    rw [htext, argumentOf_eq]
    rfl
  | just u =>
    rw [rereadsArgument_just (ha u rfl)]
    simp [Argument.type?]
  | subtypesOf u =>
    rw [rereadsArgument_bounded hs .subtypesOf "? extends ".toList "+"
      (String.toList_append ..) (fun _ => rfl) (fun v hv => hv.token_ne.2.1)
      (fun hb => ⟨_, (splitWildcard_blank hb).1⟩)
      (fun hn => by rw [argumentOf_eq, (splitWildcard_bounded hn).1])]
    simp [Argument.type?]
  | supertypesOf u =>
    rw [rereadsArgument_bounded hs .supertypesOf "? super ".toList "-"
      (String.toList_append ..) (fun _ => rfl) (fun v hv => hv.token_ne.2.2)
      (fun hb => ⟨_, (splitWildcard_blank hb).2⟩)
      (fun hn => by rw [argumentOf_eq, (splitWildcard_bounded hn).2])]
    simp [Argument.type?]

/-! ## Lists of arguments -/

/-- A list of which each entry gives one value has as many values as entries only then. -/
theorem length_of_flatMap {α β : Type} {f : α → List β} {as : List α} (h : ∀ a ∈ as, f a ≠ [])
    (hl : (as.flatMap f).length = as.length) : ∀ a ∈ as, (f a).length = 1 := by
  have hle : ∀ bs : List α, (∀ b ∈ bs, f b ≠ []) → bs.length ≤ (bs.flatMap f).length := by
    intro bs hbs
    induction bs with
    | nil => exact Nat.le_refl 0
    | cons b bs ih =>
      obtain ⟨hb, hbs⟩ := List.forall_mem_cons.mp hbs
      have hpos := List.length_pos_iff.mpr hb
      have htail := ih hbs
      rw [List.flatMap_cons, List.length_append, List.length_cons]
      omega
  induction as with
  | nil => nofun
  | cons a as ih =>
    obtain ⟨ha, has⟩ := List.forall_mem_cons.mp h
    have hpos := List.length_pos_iff.mpr ha
    have htail := hle as has
    rw [List.flatMap_cons, List.length_append, List.length_cons] at hl
    exact List.forall_mem_cons.mpr ⟨by omega, ih has (by omega)⟩

/-- Values that are found for each entry of a list. -/
theorem exists_map_ok_iff {ε α β γ : Type} {f : α → Except ε β} {g : α → γ} {k : β → γ}
    {as : List α} :
    (∃ bs : List β, as.map f = bs.map .ok ∧ bs.map k = as.map g) ↔
      ∀ a ∈ as, ∃ b, f a = .ok b ∧ k b = g a := by
  induction as with
  | nil => exact iff_of_true ⟨[], rfl, rfl⟩ nofun
  | cons a as ih =>
    rw [List.forall_mem_cons, ← ih]
    constructor
    · rintro ⟨bs, hf, hk⟩
      cases bs with
      | nil => cases hf
      | cons b bs =>
        simp only [List.map_cons, List.cons.injEq] at hf hk
        exact ⟨⟨b, hf.1, hk.1⟩, bs, hf.2, hk.2⟩
    · rintro ⟨⟨b, hf, hk⟩, bs, hfs, hks⟩
      exact ⟨b :: bs, by rw [List.map_cons, List.map_cons, hf, hfs],
        by rw [List.map_cons, List.map_cons, hk, hks]⟩

theorem balanced_arguments {s : Scope} {arguments : List TypeArgument}
    (h : ∀ a ∈ arguments, ∀ u, a.type? = some u → s.Denotes true u) :
    ∀ name ∈ arguments.map fun a => (s.argumentNameOf a).toList, Balanced name := by
  intro name hname
  obtain ⟨a, ha, rfl⟩ := List.mem_map.mp hname
  exact balanced_argumentNameOf fun u hu => (h a ha u hu).balanced_nameOf

theorem splitArguments_argumentNames {s : Scope} {arguments : List TypeArgument}
    (hne : arguments ≠ []) (h : ∀ a ∈ arguments, ∀ u, a.type? = some u → s.Denotes true u) :
    splitArguments (s.argumentNames arguments) =
      arguments.flatMap fun a => splitArguments (s.argumentNameOf a).toList :=
  (Balanced.splitArguments_intercalate (by simpa using hne) (balanced_arguments h)).trans
    (List.flatMap_map ..)

section Applied

variable {s : Scope} {n : BinaryName} {arguments : List TypeArgument}
  (hn : '|' ∉ n.text.toList) (hne : arguments ≠ [])
  (h : ∀ a ∈ arguments, ∀ u, a.type? = some u → s.Denotes true u)
include hn hne h

/-- Reading the name of a class with arguments. -/
theorem typeOf_applied_name {t : JavaType} :
    s.typeOf (trim (s.nameOf (.applied n arguments)).toList) = .ok t ↔ ∃ m read,
      s.NamesClass (trim (s.classNameOf n)) m ∧
        (splitArguments (s.argumentNames arguments)).map s.argumentOf = read.map .ok ∧
          '|' ∉ m.text.toList ∧ t = .applied m read := by
  have htext : trim (s.nameOf (.applied n arguments)).toList =
      trimStart (s.classNameOf n) ++ '<' :: (s.argumentNames arguments ++ ['>']) := by
    rw [nameOf_applied hn hne h]
    unfold trim
    rw [trimStart_append_cons _ _ (by decide), ← List.cons_append, ← List.append_assoc,
      trimEnd_append_cons _ _ (by decide)]
    rfl
  have ho : '<' ∉ trimStart (s.classNameOf n) := fun hm =>
    not_mem_classNameOf (c := '<') rfl (by decide) ((List.dropWhile_sublist _).subset hm)
  have hbalanced : Balanced (s.argumentNames arguments) := .intercalate (balanced_arguments h)
  have harray : stripSuffix? ['[', ']'] (trimStart (s.classNameOf n) ++
      '<' :: (s.argumentNames arguments ++ ['>'])) = none := by
    rw [Option.eq_none_iff_forall_ne_some]
    intro rest hr
    have he := congrArg List.getLast? (stripSuffix?_eq_some_iff.mp hr)
    rw [← List.cons_append, ← List.append_assoc, List.getLast?_concat] at he
    simp at he
  have hkeyword : Primitive.ofKeyword? (String.ofList (trimStart (s.classNameOf n) ++
      '<' :: (s.argumentNames arguments ++ ['>']))) = none :=
    ofKeyword?_eq_none (c := '<') (fun p => by cases p <;> decide) (by simp)
  rw [htext, typeOf_applied_eq_ok_iff harray hkeyword (splitGeneric_some ho hbalanced)]
  simp only [namesClass_iff]
  rfl

/-- A class with arguments is read back if its name is, and each argument on its own. -/
theorem rereads_applied (hs : s.WritableParameters) :
    s.Rereads (.applied n arguments) ↔ s.NamesClass (trim (s.classNameOf n)) n ∧
      ∀ a ∈ arguments,
        splitArguments (s.argumentNameOf a).toList = [trim (s.argumentNameOf a).toList] ∧
          s.RereadsArgument a := by
  have hmap : (∀ a ∈ arguments,
      splitArguments (s.argumentNameOf a).toList = [trim (s.argumentNameOf a).toList]) →
      (splitArguments (s.argumentNames arguments)).map s.argumentOf =
        arguments.map fun a => s.argumentOf (trim (s.argumentNameOf a).toList) := by
    intro hone
    rw [splitArguments_argumentNames hne h, List.flatMap_congr hone, ← List.map_eq_flatMap,
      List.map_map]
    rfl
  unfold Rereads
  simp only [typeOf_applied_name hn hne h]
  constructor
  · rintro ⟨u, ⟨m, read, hm, hread, -, rfl⟩, hfull⟩
    obtain ⟨rfl, htokens⟩ := JavaType.full_applied_iff.mp hfull
    have hdenotes : ∀ b ∈ read, ∀ u, b.type? = some u → s.Denotes false u := by
      intro b hb u hu
      obtain ⟨piece, -, type, -, hok⟩ := exists_of_arguments hread hb hu
      exact denotes_of_typeOf hs hok
    -- Equal generic forms have equally many tokens, so no comma within a name has cut it.
    have htoken := Denotes.map_token_eq hdenotes h htokens
    have hlength : read.length = arguments.length := by
      simpa using congrArg List.length htoken
    have hone : ∀ a ∈ arguments,
        splitArguments (s.argumentNameOf a).toList = [trim (s.argumentNameOf a).toList] := by
      refine fun a ha => splitArguments_of_length (length_of_flatMap
        (f := fun a => splitArguments (s.argumentNameOf a).toList) (fun b _ => ?_) ?_ a ha)
      · exact mt List.map_eq_nil_iff.mp (Balanced.splitCommas_ne_nil 0 _)
      · rw [← splitArguments_argumentNames hne h, ← hlength]
        simpa using congrArg List.length hread
    rw [hmap hone] at hread
    have heach := exists_map_ok_iff.mp ⟨read, hread, htoken⟩
    refine ⟨hm, fun a ha => ⟨hone a ha, ?_⟩⟩
    obtain ⟨b, hb, ht⟩ := heach a ha
    exact ⟨b, hb, String.toList_injective ht⟩
  · rintro ⟨hm, hall⟩
    obtain ⟨read, hread, htoken⟩ := exists_map_ok_iff.mpr fun a ha =>
      let ⟨b, hb, ht⟩ := (hall a ha).2
      (⟨b, hb, congrArg String.toList ht⟩ :
        ∃ b : TypeArgument, s.argumentOf (trim (s.argumentNameOf a).toList) = .ok b ∧
          b.token.toList = a.token.toList)
    refine ⟨_, ⟨n, read, hm, ?_, hn, rfl⟩, JavaType.full_applied_iff.mpr ⟨rfl, ?_⟩⟩
    · rw [hmap fun a ha => (hall a ha).1, hread]
    · unfold TypeArgument.tokens
      rw [List.flatMap_def, List.flatMap_def, htoken]

end Applied

end Scope
end JvmWeave
