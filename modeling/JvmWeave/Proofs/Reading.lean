import Mathlib.Data.List.Forall2
import JvmWeave.Proofs.ResolvedType

/-!
# Reading types

What a text means, told by the texts within it and without the expressions in between.  Everything
that a text can mean is among the types that `Denotes` lists.

Reading has two steps, from text to expressions and from these to types.  Neither is what statements
about written types are about, so `typeOf` is their composition, and has one equation for each shape
of a text: an array, a keyword, a name, a name with arguments, and text in which brackets do not
match.  In these the parts of the text are texts again.

A result of `typeOf` is listed by `denotes_of_typeOf`, by induction on the length of the text.  The
types in arguments are read back from generic forms and therefore lose the bounds of variables,
which is why `Denotes` has a flag for them.
-/

set_option autoImplicit false

namespace JvmWeave

open Text

/-! ## Arguments in brackets -/

theorem untilError_eq_iff {ε α : Type} {results : List (Except ε α)} {values : List α} :
    untilError results = (values, none) ↔ results = values.map .ok := by
  induction results generalizing values with
  | nil => cases values <;> simp [untilError]
  | cons result results ih =>
    cases result with
    | error e => cases values <;> simp [untilError]
    | ok value =>
      cases values with
      | nil => simp [untilError]
      | cons v vs =>
        simp only [untilError, List.cons.injEq, List.map_cons, Except.ok.injEq,
          ← ih, Prod.ext_iff]
        exact and_assoc

theorem splitGeneric_none {text head : List Char} (h : splitGeneric text = .ok (head, none)) :
    head = text ∧ '<' ∉ text ∧ '>' ∉ text := by
  unfold splitGeneric at h
  split at h
  · next hd =>
    split at h
    · cases h
    · next hc =>
      cases h
      refine ⟨rfl, fun hm => ?_, hc⟩
      exact absurd (List.dropWhile_eq_nil_iff.mp hd _ hm) (by decide)
  · split at h
    · split at h <;> cases h
    · cases h

theorem open_mem_of_splitGeneric {text head list : List Char}
    (h : splitGeneric text = .ok (head, some list)) : '<' ∈ text := by
  by_contra ho
  have hd : text.dropWhile (· ≠ '<') = [] :=
    List.dropWhile_eq_nil_iff.mpr fun c hm => decide_eq_true fun e : c = '<' => ho (e ▸ hm)
  unfold splitGeneric at h
  rw [hd] at h
  dsimp only at h
  split at h <;> cases h

theorem splitGeneric_some {before list : List Char} (ho : '<' ∉ before) (h : Balanced list) :
    splitGeneric (before ++ '<' :: (list ++ ['>'])) = .ok (trimEnd before, some list) := by
  have hb : ∀ c ∈ before, decide (c ≠ '<') = true := fun c hc =>
    decide_eq_true fun e : c = '<' => ho (e ▸ hc)
  unfold splitGeneric
  rw [List.dropWhile_append_of_pos hb, List.takeWhile_append_of_pos hb,
    List.dropWhile_cons_of_neg (by decide), List.takeWhile_cons_of_neg (by decide)]
  dsimp only
  rw [List.append_nil, List.getLast?_concat, if_pos rfl, List.dropLast_concat,
    h.firstMismatch?_eq_none]

theorem splitArguments_of_length {text : List Char} (h : (splitArguments text).length = 1) :
    splitArguments text = [trim text] := by
  unfold splitArguments at h ⊢
  obtain ⟨piece, hp⟩ := List.length_eq_one_iff.mp ((List.length_map ..).symm.trans h)
  have hj := Balanced.join_splitCommas 0 text
  rw [hp] at hj ⊢
  rw [← hj]
  rfl

/-! ## Wildcards -/

theorem splitWildcard_just {text type : List Char} (h : splitWildcard text = .just type) :
    type = text := by
  rw [splitWildcard.eq_def] at h
  split at h
  · cases h
    rfl
  · split at h
    · split at h
      · cases h
      · split at h
        · cases h
        · split at h
          · cases h
          · cases h
            rfl
    · cases h
      rfl

/-- A wildcard in front of a name. -/
theorem splitWildcard_bounded {name : List Char} (h : ∃ c ∈ name, isBlank c = false) :
    splitWildcard (trim ("? extends ".toList ++ name)) = .subtypesOf (trim name) ∧
      splitWildcard (trim ("? super ".toList ++ name)) = .supertypesOf (trim name) := by
  have htrim : ∀ keyword : List Char, trim ('?' :: (keyword ++ name)) =
      '?' :: (keyword ++ trimEnd name) := by
    intro keyword
    unfold trim
    rw [← List.nil_append ('?' :: _), trimStart_append_cons _ _ (by decide)]
    show trimEnd (('?' :: keyword) ++ name) = _
    rw [trimEnd_append _ h]
    rfl
  constructor
  · show splitWildcard (trim ('?' :: (" extends ".toList ++ name))) = _
    rw [htrim, ← trim_trimEnd name]
    rfl
  · show splitWildcard (trim ('?' :: (" super ".toList ++ name))) = _
    rw [htrim, ← trim_trimEnd name]
    rfl

/-- A wildcard in front of nothing is taken for a name. -/
theorem splitWildcard_blank {name : List Char} (h : ∀ c ∈ name, isBlank c = true) :
    splitWildcard (trim ("? extends ".toList ++ name)) = .just "? extends".toList ∧
      splitWildcard (trim ("? super ".toList ++ name)) = .just "? super".toList := by
  have htrim : ∀ (keyword : List Char) (c : Char), isBlank c = false →
      trim ('?' :: (keyword ++ c :: ' ' :: name)) = '?' :: (keyword ++ [c]) := by
    intro keyword c hc
    have hend : trimEnd (' ' :: name) = [] :=
      trimEnd_of_blank (List.forall_mem_cons.mpr ⟨by decide, h⟩)
    unfold trim
    rw [← List.nil_append ('?' :: _), trimStart_append_cons _ _ (by decide)]
    show trimEnd (('?' :: keyword) ++ c :: ' ' :: name) = _
    rw [trimEnd_append_cons _ _ hc, hend]
    rfl
  constructor
  · show splitWildcard (trim ('?' :: (" extend".toList ++ 's' :: ' ' :: name))) = _
    rw [htrim _ _ (by decide)]
    rfl
  · show splitWildcard (trim ('?' :: (" supe".toList ++ 'r' :: ' ' :: name))) = _
    rw [htrim _ _ (by decide)]
    rfl

/-! ## Expressions -/

theorem map_attach_eq {α β : Type} {as : List α} {f : {a // a ∈ as} → β} {g : α → β}
    (h : ∀ a, f a = g a.1) : as.attach.map f = as.map g :=
  (List.map_congr_left fun a _ => h a).trans List.attach_map_val

namespace TypeExpr

/-- An argument whose type is read. -/
def parseArgument (text : List Char) : Argument TypeExpr :=
  match splitWildcard text with
  | .any => .any
  | .just type => .just (parse type)
  | .subtypesOf type => .subtypesOf (parse type)
  | .supertypesOf type => .supertypesOf (parse type)

theorem parse_array {text element : List Char}
    (ha : stripSuffix? ['[', ']'] text = some element) :
    parse text = .array (parse (trimEnd element)) := by
  rw [parse]
  split
  · next he =>
    rw [ha] at he
    cases he
    rfl
  · next he => rw [ha] at he; cases he

theorem parse_keyword {text : List Char} (ha : stripSuffix? ['[', ']'] text = none) {p : Primitive}
    (hk : Primitive.ofKeyword? (String.ofList text) = some p) : parse text = .primitive p := by
  rw [parse]
  split
  · next he => rw [ha] at he; cases he
  · rw [hk]

theorem parse_generic {text : List Char} (ha : stripSuffix? ['[', ']'] text = none)
    (hk : Primitive.ofKeyword? (String.ofList text) = none) :
    parse text =
      match splitGeneric text with
      | .error cause => .malformed cause
      | .ok (head, none) => .named (String.ofList head)
      | .ok (head, some list) =>
        .applied (String.ofList text) (String.ofList head)
          ((splitArguments list).map parseArgument) := by
  rw [parse]
  split
  · next he => rw [ha] at he; cases he
  · rw [hk]
    dsimp only
    split
    · next he => rw [he]
    · next he => rw [he]
    · next he =>
      rw [he]
      dsimp only
      rw [map_attach_eq (g := parseArgument)]
      intro argument
      unfold parseArgument
      split <;> next hw => rw [hw]

end TypeExpr

namespace Scope

/-! ## One step -/

/-- The type that a text without blanks around it means. -/
def typeOf (s : Scope) (text : List Char) : Except ResolveError JavaType :=
  s.evaluate [] (TypeExpr.parse text)

/-- The type argument that an expression means. -/
def evaluateArgument (s : Scope) : Argument TypeExpr → Except ResolveError TypeArgument
  | .any => .ok .any
  | .just type => (s.evaluate [] type).map .just
  | .subtypesOf type => (s.evaluate [] type).map .subtypesOf
  | .supertypesOf type => (s.evaluate [] type).map .supertypesOf

/-- The type argument that a text means. -/
def argumentOf (s : Scope) (text : List Char) : Except ResolveError TypeArgument :=
  s.evaluateArgument (TypeExpr.parseArgument text)

theorem argumentOf_eq (s : Scope) (text : List Char) :
    s.argumentOf text =
      match splitWildcard text with
      | .any => .ok .any
      | .just type => (s.typeOf type).map .just
      | .subtypesOf type => (s.typeOf type).map .subtypesOf
      | .supertypesOf type => (s.typeOf type).map .supertypesOf := by
  unfold argumentOf TypeExpr.parseArgument typeOf
  cases splitWildcard text <;> rfl

theorem typeOf_array {s : Scope} {text element : List Char}
    (ha : stripSuffix? ['[', ']'] text = some element) :
    s.typeOf text = (s.typeOf (trimEnd element)).map .arrayOf := by
  unfold typeOf
  rw [TypeExpr.parse_array ha, evaluate]
  cases s.evaluate [] (.parse (trimEnd element)) <;> rfl

theorem typeOf_keyword {s : Scope} {text : List Char} (ha : stripSuffix? ['[', ']'] text = none)
    {p : Primitive} (hk : Primitive.ofKeyword? (String.ofList text) = some p) :
    s.typeOf text = .ok (.primitive p) := by
  unfold typeOf
  rw [TypeExpr.parse_keyword ha hk, evaluate]

section Generic

variable {s : Scope} {text : List Char} (ha : stripSuffix? ['[', ']'] text = none)
  (hk : Primitive.ofKeyword? (String.ofList text) = none)
include ha hk

theorem typeOf_malformed {cause : Malformed} (hg : splitGeneric text = .error cause) :
    s.typeOf text = .error (.malformed cause) := by
  unfold typeOf
  rw [TypeExpr.parse_generic ha hk, hg, evaluate]

theorem typeOf_named {head : List Char} (hg : splitGeneric text = .ok (head, none)) :
    s.typeOf text = s.evaluateName [] (String.ofList head) := by
  unfold typeOf
  rw [TypeExpr.parse_generic ha hk, hg, evaluate]

theorem typeOf_applied {head list : List Char} (hg : splitGeneric text = .ok (head, some list)) :
    s.typeOf text = applyHead (String.ofList text) (s.evaluateName [] (String.ofList head))
      (untilError ((splitArguments list).map s.argumentOf)) := by
  unfold typeOf
  rw [TypeExpr.parse_generic ha hk, hg]
  dsimp only
  rw [evaluate, map_attach_eq (g := s.evaluateArgument), List.map_map]
  · rfl
  · rintro ⟨argument, _⟩
    cases argument <;> rfl

end Generic

/-! ## Names -/

/-- A name means a class or a type parameter. -/
theorem evaluateName_eq_ok {s : Scope} {name : String} {t : JavaType}
    (h : s.evaluateName [] name = .ok t) :
    (name ≠ "" ∧ ∀ c ∈ name.toList, isBlank c = false) ∧
      ((∃ n, s.parameter? name = none ∧ s.classOf name.toList = .ok n ∧ t = .ofBinaryName n) ∨
        ∃ p bound, s.parameter? name = some p ∧ t = .typeVariable name bound) := by
  rw [evaluateName] at h
  split at h
  · cases h
  · next he =>
    obtain ⟨hne, hb⟩ := not_or.mp he
    refine ⟨⟨hne, fun c hc => ?_⟩, ?_⟩
    · cases hcb : isBlank c with
      | false => rfl
      | true => exact absurd (List.any_eq_true.mpr ⟨c, hc, hcb⟩) hb
    split at h
    · next hp =>
      cases hc : s.classOf name.toList with
      | error e => rw [hc] at h; cases h
      | ok n =>
        rw [hc] at h
        cases h
        exact .inl ⟨n, hp, rfl, rfl⟩
    · next p hp =>
      split at h
      · cases h
        exact .inr ⟨p, _, hp, rfl⟩
      · split at h
        · cases h
        · split at h
          · cases h
          · next head _ _ =>
            cases hb : s.evaluate [name] (TypeExpr.parse head) with
            | error e => rw [hb] at h; cases h
            | ok bound =>
              rw [hb] at h
              cases h
              exact .inr ⟨p, bound, hp, rfl⟩
      · cases h

/-- The name is read as the class. -/
structure NamesClass (s : Scope) (name : List Char) (n : BinaryName) : Prop where
  ne_nil : name ≠ []
  notBlank : ∀ c ∈ name, isBlank c = false
  noParameter : s.parameter? (String.ofList name) = none
  classOf : s.classOf name = .ok n

theorem namesClass_iff {s : Scope} {name : List Char} {n : BinaryName} :
    s.NamesClass name n ↔ s.evaluateName [] (String.ofList name) = .ok (.ofBinaryName n) := by
  constructor
  · intro h
    rw [evaluateName, if_neg (evaluable_of_notBlank h.ne_nil h.notBlank)]
    split
    · rw [String.toList_ofList, h.classOf]
      rfl
    · next p hp => rw [h.noParameter] at hp; cases hp
  · intro h
    obtain ⟨⟨hne, hb⟩, hcases⟩ := evaluateName_eq_ok h
    rw [String.toList_ofList] at hb
    rcases hcases with ⟨m, hp, hc, ht⟩ | ⟨p, bound, -, ht⟩
    · rw [String.toList_ofList] at hc
      have hm : n = m := JavaType.eq_of_full_ofBinaryName (congrArg JavaType.full ht)
      exact ⟨fun he => hne (by rw [he]), hb, hp, hm ▸ hc⟩
    · have hs := congrArg JavaType.signature ht
      cases hs

theorem arguments_ne_nil {s : Scope} {list : List Char} {arguments : List TypeArgument}
    (h : (splitArguments list).map s.argumentOf = arguments.map .ok) : arguments ≠ [] := by
  rintro rfl
  have hnil : splitArguments list = [] := List.map_eq_nil_iff.mp h
  exact Balanced.splitCommas_ne_nil 0 list (List.map_eq_nil_iff.mp hnil)

/-- With arguments a name means a class, of which they become the arguments. -/
theorem typeOf_applied_eq_ok_iff {s : Scope} {text head list : List Char}
    (ha : stripSuffix? ['[', ']'] text = none)
    (hk : Primitive.ofKeyword? (String.ofList text) = none)
    (hg : splitGeneric text = .ok (head, some list)) {t : JavaType} :
    s.typeOf text = .ok t ↔ ∃ n arguments,
      s.evaluateName [] (String.ofList head) = .ok (.ofBinaryName n) ∧
        (splitArguments list).map s.argumentOf = arguments.map .ok ∧ '|' ∉ n.text.toList ∧
          t = .applied n arguments := by
  rw [typeOf_applied ha hk hg, applyHead_eq_ok]
  constructor
  · rintro ⟨u, hu, herror, hw⟩
    have harguments := untilError_eq_iff.mp (Prod.ext rfl herror)
    rcases (evaluateName_eq_ok hu).2 with ⟨n, -, -, rfl⟩ | ⟨p, bound, -, rfl⟩
    · obtain ⟨hn, rfl⟩ := (JavaType.withArguments_ofBinaryName (arguments_ne_nil harguments)).mp hw
      exact ⟨n, _, hu, harguments, hn, rfl⟩
    · have hv : (JavaType.typeVariable (String.ofList head) bound).isVariable = true := by
        unfold JavaType.isVariable
        rw [JavaType.variableName?_typeVariable]
        rfl
      rw [JavaType.withArguments, if_pos (.inr hv)] at hw
      cases hw
  · rintro ⟨n, arguments, hu, harguments, hn, rfl⟩
    refine ⟨_, hu, ?_⟩
    rw [untilError_eq_iff.mpr harguments]
    exact ⟨rfl, (JavaType.withArguments_ofBinaryName (arguments_ne_nil harguments)).mpr ⟨hn, rfl⟩⟩

/-! ## All that can be meant -/

theorem exists_of_argumentOf {s : Scope} {text : List Char} {a : TypeArgument} {u : JavaType}
    (h : s.argumentOf text = .ok a) (hu : a.type? = some u) :
    ∃ type, (splitWildcard text).type? = some type ∧ s.typeOf type = .ok u := by
  have hmap : ∀ {type : List Char} {f : JavaType → TypeArgument}, (∀ v, (f v).type? = some v) →
      (s.typeOf type).map f = .ok a → s.typeOf type = .ok u := by
    intro type f hf hm
    cases ht : s.typeOf type with
    | error e => rw [ht] at hm; cases hm
    | ok v =>
      rw [ht] at hm
      cases hm
      rw [hf] at hu
      cases hu
      rfl
  rw [argumentOf_eq] at h
  split at h
  · cases h
    cases hu
  · next type hw => exact ⟨type, by rw [hw]; rfl, hmap (fun _ => rfl) h⟩
  · next type hw => exact ⟨type, by rw [hw]; rfl, hmap (fun _ => rfl) h⟩
  · next type hw => exact ⟨type, by rw [hw]; rfl, hmap (fun _ => rfl) h⟩

/-- The types in arguments that were read are read from shorter texts. -/
theorem exists_of_arguments {s : Scope} {pieces : List (List Char)} {arguments : List TypeArgument}
    (h : pieces.map s.argumentOf = arguments.map .ok) {a : TypeArgument} (ha : a ∈ arguments)
    {u : JavaType} (hu : a.type? = some u) :
    ∃ piece ∈ pieces, ∃ type, (splitWildcard piece).type? = some type ∧ s.typeOf type = .ok u := by
  have hok : Except.ok a ∈ pieces.map s.argumentOf := by
    rw [h]
    exact List.mem_map_of_mem ha
  obtain ⟨piece, hpiece, hread⟩ := List.mem_map.mp hok
  exact ⟨piece, hpiece, exists_of_argumentOf hread hu⟩

/-- Arguments whose types are read from generic forms. -/
theorem exists_inner_arguments {s : Scope} {arguments : List TypeArgument}
    (h : ∀ a ∈ arguments, ∀ u, a.type? = some u → s.Denotes false u) :
    ∃ inner, (∀ a ∈ inner, ∀ u, a.type? = some u → s.Denotes true u) ∧
      TypeArgument.tokens inner = TypeArgument.tokens arguments ∧
      inner.length = arguments.length := by
  have hone : ∀ a : TypeArgument, (∀ u, a.type? = some u → s.Denotes false u) →
      ∃ b : TypeArgument, (∀ u, b.type? = some u → s.Denotes true u) ∧ b.token = a.token := by
    intro a ha
    cases a with
    | any => exact ⟨.any, nofun, rfl⟩
    | just u =>
      obtain ⟨v, hv, hf⟩ := (ha u rfl).exists_inner
      exact ⟨.just v, fun w hw => by cases hw; exact hv, hf⟩
    | subtypesOf u =>
      obtain ⟨v, hv, hf⟩ := (ha u rfl).exists_inner
      exact ⟨.subtypesOf v, fun w hw => by cases hw; exact hv, congrArg ("+" ++ ·) hf⟩
    | supertypesOf u =>
      obtain ⟨v, hv, hf⟩ := (ha u rfl).exists_inner
      exact ⟨.supertypesOf v, fun w hw => by cases hw; exact hv, congrArg ("-" ++ ·) hf⟩
  induction arguments with
  | nil => exact ⟨[], by simp, rfl, rfl⟩
  | cons a arguments ih =>
    obtain ⟨ha, harguments⟩ := List.forall_mem_cons.mp h
    obtain ⟨b, hb, htoken⟩ := hone a ha
    obtain ⟨bs, hbs, htokens, hlen⟩ := ih harguments
    refine ⟨b :: bs, List.forall_mem_cons.mpr ⟨hb, hbs⟩, ?_, by simp [hlen]⟩
    unfold TypeArgument.tokens at htokens ⊢
    rw [List.flatMap_cons, List.flatMap_cons, htokens, htoken]

/-- Names of type parameters that can stand in a generic form. -/
def WritableParameters (s : Scope) : Prop :=
  ∀ p ∈ s.typeParameters, ';' ∉ p.name.toList

theorem denotes_of_evaluateName {s : Scope} (hs : s.WritableParameters) {name : List Char}
    (hn : PlainName name) {t : JavaType} (h : s.evaluateName [] (String.ofList name) = .ok t) :
    s.Denotes false t := by
  rcases (evaluateName_eq_ok h).2 with ⟨n, -, -, rfl⟩ | ⟨p, bound, hp, rfl⟩
  · exact .classType false n
  · have hname : p.name = String.ofList name := by simpa using List.find?_some hp
    have hmem := hs p (List.mem_of_find?_eq_some hp)
    rw [hname, String.toList_ofList] at hmem
    exact .typeVariable false hn hmem h

/-- Whatever a text means is listed. -/
theorem denotes_of_typeOf {s : Scope} (hs : s.WritableParameters) {text : List Char} {t : JavaType}
    (h : s.typeOf text = .ok t) : s.Denotes false t := by
  -- By length, since elements and arguments are read from texts that are trimmed.
  induction hl : text.length using Nat.strong_induction_on generalizing text t with
  | _ length ih =>
    subst hl
    cases ha : stripSuffix? ['[', ']'] text with
    | some element =>
      have hlt : (trimEnd element).length < text.length := length_trimEnd_lt (by simp) ha
      rw [typeOf_array ha] at h
      cases he : s.typeOf (trimEnd element) with
      | error e => rw [he] at h; cases h
      | ok u =>
        rw [he] at h
        cases h
        exact .array (ih _ hlt he rfl)
    | none =>
      cases hk : Primitive.ofKeyword? (String.ofList text) with
      | some p =>
        rw [typeOf_keyword ha hk] at h
        cases h
        exact .primitive false p
      | none =>
        rcases hg : splitGeneric text with cause | ⟨head, _ | list⟩
        · rw [typeOf_malformed ha hk hg] at h
          cases h
        · rw [typeOf_named ha hk hg] at h
          obtain ⟨rfl, ho, hc⟩ := splitGeneric_none hg
          obtain ⟨hne, hb⟩ := (evaluateName_eq_ok h).1
          rw [String.toList_ofList] at hb
          exact denotes_of_evaluateName hs
            ⟨fun he => hne (by rw [he]), hb, ho, hc, ha, hk⟩ h
        · obtain ⟨n, arguments, -, harguments, hn, rfl⟩ :=
            (typeOf_applied_eq_ok_iff ha hk hg).mp h
          have hread : ∀ a ∈ arguments, ∀ u, a.type? = some u → s.Denotes false u := by
            intro a hm u hu
            obtain ⟨piece, hpiece, type, htype, hok⟩ := exists_of_arguments harguments hm hu
            have h₁ := length_lt_of_splitGeneric hg
            have h₂ := length_le_of_mem_splitArguments hpiece
            have h₃ := length_le_of_splitWildcard htype
            exact ih type.length (by omega) hok rfl
          -- The generic form keeps no bounds, so arguments without them give the same type.
          obtain ⟨inner, hinner, htokens, hlen⟩ := exists_inner_arguments hread
          have hne : inner ≠ [] := by
            rw [← List.length_pos_iff, hlen, List.length_pos_iff]
            exact arguments_ne_nil harguments
          have ht : JavaType.applied n arguments = .applied n inner := by
            unfold JavaType.applied
            rw [htokens]
          rw [ht]
          exact .applied false hn hne hinner

end Scope
end JvmWeave
