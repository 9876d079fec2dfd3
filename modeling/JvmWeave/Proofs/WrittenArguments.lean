import JvmWeave.Proofs.InnermostArguments
import JvmWeave.Proofs.MethodReading

/-!
# Arguments that are written

Type arguments are written one after another into the generic form of a class, and are found there
again: those that are read are of the kinds and have the generic forms of those that were written.
Generic forms keep no bounds, so a type variable comes back with `Object` in place of its bound.

All else comes back as it was, but for one kind of types: a class whose descriptor has a dot and
that has no generic form is written as its descriptor, and read as an inner class.
-/

set_option autoImplicit false

namespace JvmWeave

open Text

namespace JavaType

/-! ## Types that are read from their generic forms -/

/-- The type with `Object` in place of the bound, if it is a type variable or an array of one. -/
def unbounded (t : JavaType) : JavaType :=
  if isVariableSignature t.full.toList then
    ⟨String.ofList (t.full.toList.takeWhile (· = '[') ++ BinaryName.object.descriptor.toList),
      some t.full⟩
  else t

/-- The type that is read where this one is written. -/
def reread (t : JavaType) : JavaType :=
  (ofGeneric? t.full.toList).getD t

/-- In a descriptor there are no type arguments to erase, only dots to replace. -/
theorem erasure?_of_isToken {cs : List Char} (h : IsToken .descriptor cs) :
    erasure? cs = some (replace '.' '$' cs) := by
  induction h with
  | primitive p => cases p <;> rfl
  | typeVariable hd => cases hd
  | @classType body hb =>
    obtain ⟨-, ho, hc⟩ := hb
    rw [erasure?_of_balanced (.of_not_mem ho hc), eraseClass_of_not_mem ho hc]
    simp [replace]
  | array _ ih =>
    rw [erasure?, if_pos rfl, ih]
    rfl

theorem ofGeneric?_reread {t : JavaType} (h : t.IsValid) :
    ofGeneric? t.full.toList = some t.reread ∧ t.reread.full = t.full := by
  obtain ⟨u, hu, hf⟩ := exists_ofGeneric? h.isToken_full
  have hr : t.reread = u := by
    unfold reread
    rw [hu]
    rfl
  rw [hr]
  exact ⟨hu, String.toList_injective hf⟩

theorem descriptor_reread {t : JavaType} (h : t.IsValid) : t.reread.IsValid ∧
    Scope.Denotes.genericErasure? t.full.toList = some t.reread.descriptor.toList := by
  have hread := (ofGeneric?_reread h).1
  refine ⟨isValid_of_ofGeneric? hread, ?_⟩
  obtain ⟨descriptor, hd, hs⟩ := exists_of_ofGeneric? hread
  rw [hd, descriptor_of_ofSignature hs, String.toList_ofList]

/-- Valid types are told apart by their two forms. -/
theorem IsValid.eq_of_forms {t u : JavaType} (ht : t.IsValid) (hu : u.IsValid)
    (hd : t.descriptor = u.descriptor) (hf : t.full = u.full) : t = u := by
  have hread := ofSignature_eq_ok_iff_isValid.mpr ⟨ht, rfl⟩
  rw [hd, hf, ofSignature_eq_ok_iff_isValid.mpr ⟨hu, rfl⟩] at hread
  exact (Except.ok.inj hread).symm

theorem isVariableSignature_iff {cs : List Char} :
    isVariableSignature cs = true ↔ (elementOf cs).head? = some 'T' := by
  simp [isVariableSignature]

/-- A descriptor is no type variable, so that a variable has a generic form of its own. -/
theorem IsValid.signature_of_variable {t : JavaType} (h : t.IsValid)
    (hvar : isVariableSignature t.full.toList = true) : t.signature = some t.full := by
  cases hs : t.signature with
  | none =>
    rw [full_of_none hs] at hvar
    exact absurd (isVariableSignature_iff.mp hvar) (isValid_iff.mp h).1.head_ne_variable
  | some s => simp [full, hs]

theorem reread_of_variable {t : JavaType} (h : t.IsValid)
    (hvar : isVariableSignature t.full.toList = true) : t.reread = t.unbounded := by
  obtain ⟨hvalid, herasure⟩ := descriptor_reread h
  have hfull := (ofGeneric?_reread h).2
  have hsig : t.reread.signature = some t.full := by
    rw [← hfull]
    apply hvalid.signature_of_variable
    rw [hfull]
    exact hvar
  unfold Scope.Denotes.genericErasure? at herasure
  rw [if_pos hvar] at herasure
  unfold unbounded
  rw [if_pos hvar, Option.some.inj herasure, String.ofList_toList, ← hsig]

/-- Its descriptor is read off the generic form, where dots stand in front of inner classes. -/
theorem reread_eq_self_iff {t : JavaType} (h : t.IsValid)
    (hvar : isVariableSignature t.full.toList = false) :
    t.reread = t ↔ t.signature ≠ none ∨ '.' ∉ t.descriptor.toList := by
  obtain ⟨hd, hs⟩ := isValid_iff.mp h
  obtain ⟨hvalid, herasure⟩ := descriptor_reread h
  unfold Scope.Denotes.genericErasure? at herasure
  rw [hvar, if_neg Bool.false_ne_true] at herasure
  have hsame : t.reread = t ↔ t.reread.descriptor.toList = t.descriptor.toList := by
    constructor
    · intro he
      rw [he]
    · intro he
      exact hvalid.eq_of_forms h (String.toList_injective he) (ofGeneric?_reread h).2
  rw [hsame]
  cases hsig : t.signature with
  | none =>
    rw [full_of_none hsig, erasure?_of_isToken hd] at herasure
    rw [← Option.some.inj herasure, replace_eq_self_iff (by decide)]
    simp
  | some s =>
    have hfull : t.full = s := by simp [full, hsig]
    have herases := (hs s hsig).2.2
    unfold erasesTo at herases
    rw [hfull] at hvar herasure
    rw [hvar, if_neg Bool.false_ne_true, decide_eq_true_eq, herasure] at herases
    simpa using herases

/-- A type comes back without bounds, unless dots of its descriptor are taken for inner classes. -/
theorem reread_eq_unbounded_iff {t : JavaType} (h : t.IsValid) :
    t.reread = t.unbounded ↔ t.signature ≠ none ∨ '.' ∉ t.descriptor.toList := by
  cases hvar : isVariableSignature t.full.toList with
  | true =>
    have hsig : t.signature ≠ none := by simp [h.signature_of_variable hvar]
    exact iff_of_true (reread_of_variable h hvar) (.inl hsig)
  | false =>
    rw [← reread_eq_self_iff h hvar]
    unfold unbounded
    rw [hvar, if_neg Bool.false_ne_true]

end JavaType

namespace TypeArgument

/-- What is read where an argument is written has its kind and its generic form, and is the argument
without bounds exactly if the dots of its type, if it has any, stand in a generic form. -/
structure ReadBack (a b : TypeArgument) : Prop where
  written : b.written = a.written
  eq_iff : b = a.map JavaType.unbounded ↔
    ∀ v, a.type? = some v → v.signature ≠ none ∨ '.' ∉ v.descriptor.toList

theorem map_eq_map_iff {a : TypeArgument} {f g : JavaType → JavaType} :
    a.map f = a.map g ↔ ∀ v, a.type? = some v → f v = g v := by
  cases a <;> simp [Argument.map, Argument.type?]

theorem readBack_of_isReadAs {a b : TypeArgument}
    (ha : ∀ v, a.type? = some v → v.IsValid) (h : a.written.IsReadAs b) : a.ReadBack b := by
  have hwritten : written (a.map JavaType.reread) = a.written := by
    cases a with
    | any => rfl
    | just v | subtypesOf v | supertypesOf v =>
      simp [written, Argument.map, (JavaType.ofGeneric?_reread (ha v rfl)).2]
  have hcomplete : (written (a.map JavaType.reread)).IsComplete := by
    rw [hwritten]
    exact isComplete_written fun v hv => (ha v hv).isToken_full
  have htypes : ∀ v, (a.map JavaType.reread).type? = some v →
      JavaType.ofGeneric? v.full.toList = some v := by
    intro v hv
    have hread {t : JavaType} (ht : a.type? = some t) (he : t.reread = v) :
        JavaType.ofGeneric? v.full.toList = some v := by
      obtain ⟨hg, hf⟩ := JavaType.ofGeneric?_reread (ha t ht)
      rw [← he, hf, hg]
    cases a with
    | any => cases hv
    | just t | subtypesOf t | supertypesOf t => exact hread rfl (Option.some.inj hv)
  have hb : b = a.map JavaType.reread := by
    have hread := ofToken?_written hcomplete htypes
    rw [hwritten, h.read] at hread
    exact Option.some.inj hread
  refine ⟨h.written, ?_⟩
  rw [hb, map_eq_map_iff]
  exact forall₂_congr fun v hv => JavaType.reread_eq_unbounded_iff (ha v hv)

end TypeArgument

namespace JavaType

/-! ## A class with arguments -/

variable {t : JavaType} {arguments : List TypeArgument}

/-- The arguments that were written are the last group in brackets, and they end the class. -/
theorem lastGroup?_beforeArguments (ht : t.IsValid) (hc : t.category = .classType)
    (hv : t.isVariable = false)
    (ha : ∀ a ∈ arguments, ∀ v, a.type? = some v → v.IsValid ∧ v.VariableAvoids ['<', '>']) :
    (∃ rest, t.beforeArguments = 'L' :: rest) ∧
      lastGroup? (t.beforeArguments ++ '<' :: TypeArgument.tokens arguments ++ ['>', ';']) =
        some ⟨t.beforeArguments, TypeArgument.tokens arguments, [';']⟩ := by
  obtain ⟨body, hfull, hbody⟩ := ht.exists_classBody (isClass_of_category hc) hv
  obtain ⟨before, hbefore, hb, -⟩ := exists_beforeArguments hfull hbody
  have htokens : Balanced (TypeArgument.tokens arguments) := by
    refine .flatMap fun a hm => Scope.Denotes.balanced_token ?_
    intro v hv
    obtain ⟨hvalid, havoids⟩ := ha a hm v hv
    exact hvalid.balanced_full (by decide) havoids
  have hl : Balanced t.beforeArguments := by
    rw [hbefore]
    exact .char (by decide) (by decide) hb.balanced
  refine ⟨⟨before, hbefore⟩, ?_⟩
  rw [← lastGroup?_append hl htokens (by decide) (by decide)]
  simp

/-- The type has the same class in front of its arguments, and reads those that were written. -/
theorem exists_withArguments (ht : t.IsValid) (hc : t.category = .classType)
    (hv : t.isVariable = false) (hne : arguments ≠ [])
    (ha : ∀ a ∈ arguments, ∀ v, a.type? = some v → v.IsValid ∧ v.VariableAvoids ['<', '>']) :
    ∃ u, t.withArguments arguments = .ok u ∧ u.descriptor = t.descriptor ∧
      u.isVariable = false ∧ u.beforeArguments = t.beforeArguments ∧
      List.Forall₂ Argument.IsReadAs (arguments.map TypeArgument.written) u.typeArguments := by
  obtain ⟨⟨rest, hrest⟩, hlast⟩ := lastGroup?_beforeArguments ht hc hv ha
  generalize htext : t.beforeArguments ++ '<' :: TypeArgument.tokens arguments ++ ['>', ';'] = text
    at hlast
  have hhead : ∃ cs, text = 'L' :: cs := by
    rw [← htext, hrest]
    exact ⟨_, rfl⟩
  obtain ⟨cs, hcs⟩ := hhead
  have hwritten := withArguments_eq hc hv hne
  rw [htext] at hwritten
  refine ⟨_, hwritten, rfl, ?_, ?_, ?_⟩
  · simp [isVariable, variableName?, hcs]
  · have hfull : full ⟨t.descriptor, some (String.ofList text)⟩ = String.ofList text := rfl
    unfold beforeArguments
    rw [hfull, String.toList_ofList, hlast]
    rfl
  · have hcomplete : ∀ w ∈ arguments.map TypeArgument.written, w.IsComplete :=
      List.forall_mem_map.mpr fun a hm =>
        TypeArgument.isComplete_written fun v hv => (ha a hm v hv).1.isToken_full
    rw [typeArguments_of_class rfl (String.toList_ofList.trans hcs), ← hcs, hlast, Option.elim_some,
      TypeArgument.tokens_eq, Argument.argumentTokens_flatMap hcomplete]
    exact Argument.forall₂_isReadAs hcomplete

/-- Arguments that are written are read back, each exactly as it was if the dots of its type stand
in a generic form, and writing others afterwards is the same as writing these at once. -/
theorem typeArguments_withArguments (ht : t.IsValid) (hc : t.category = .classType)
    (hv : t.isVariable = false) (hne : arguments ≠ [])
    (ha : ∀ a ∈ arguments, ∀ v, a.type? = some v → v.IsValid ∧ v.VariableAvoids ['<', '>']) :
    ∃ u, t.withArguments arguments = .ok u ∧ u.descriptor = t.descriptor ∧
      List.Forall₂ TypeArgument.ReadBack arguments u.typeArguments ∧
      ∀ others, others ≠ [] → u.withArguments others = t.withArguments others := by
  obtain ⟨u, hu, hd, huv, hbefore, hread⟩ := exists_withArguments ht hc hv hne ha
  refine ⟨u, hu, hd, ?_, ?_⟩
  · have hboth := (List.forall₂_and_left arguments u.typeArguments).mpr
      ⟨ha, List.forall₂_map_left_iff.mp hread⟩
    apply hboth.imp
    intro a b hab
    exact TypeArgument.readBack_of_isReadAs (fun v hv => (hab.1 v hv).1) hab.2
  · intro others hothers
    have huc : u.category = .classType := by
      rw [← hc]
      unfold category
      rw [hd]
    rw [withArguments_eq huc huv hothers, withArguments_eq hc hv hothers, hbefore, hd]

/-- A map whose class has no arguments yet is given a type variable and a wildcard. -/
theorem typeArguments_withArguments_map :
    ∃ u, (erased "Ljava/util/Map;").withArguments
        [.just (typeVariable "K" string), .subtypesOf (arrayOf string)] = .ok u ∧
      u.typeArguments = [.just (typeVariable "K" object), .subtypesOf (arrayOf string)] ∧
      u.withArguments [.any] = (erased "Ljava/util/Map;").withArguments [.any] := by
  have ha : ∀ a ∈ [Argument.just (typeVariable "K" string), .subtypesOf (arrayOf string)],
      ∀ v ∈ a.type?, v.IsValid ∧ v.VariableAvoids ['<', '>'] := by decide
  obtain ⟨u, hu, -, hread, hothers⟩ :=
    typeArguments_withArguments (t := erased "Ljava/util/Map;") (by decide) (by decide) (by decide)
      (List.cons_ne_nil _ _) ha
  refine ⟨u, hu, ?_, hothers [.any] (List.cons_ne_nil _ _)⟩
  obtain ⟨b, bs, hb, hbs, he⟩ := List.forall₂_cons_left_iff.mp hread
  obtain ⟨c, cs, hc, hcs, he'⟩ := List.forall₂_cons_left_iff.mp hbs
  have hb' := hb.eq_iff.mpr fun v hv => Option.some.inj hv ▸ .inl (by decide)
  have hc' := hc.eq_iff.mpr fun v hv => Option.some.inj hv ▸ .inr (by decide)
  rw [he, he', List.forall₂_nil_left_iff.mp hcs, hb', hc']
  decide

/-- A class with a dot in its name is accepted, and comes back as an inner class. -/
theorem typeArguments_dottedClass :
    ofDescriptor "La.b;" = .ok (erased "La.b;") ∧
      (erased "La.b;").IsValid ∧ isVariableSignature (erased "La.b;").full.toList = false ∧
      ∃ u, (erased "Ljava/util/List;").withArguments [.just (erased "La.b;")] = .ok u ∧
        u.typeArguments = [.just ⟨"La$b;", some "La.b;"⟩] ∧
        u.typeArguments ≠ [.just (erased "La.b;")] := by
  have ha : ∀ a ∈ [Argument.just (erased "La.b;")],
      ∀ v ∈ a.type?, v.IsValid ∧ v.VariableAvoids ['<', '>'] := by decide
  obtain ⟨u, hu, -, -, -, hread⟩ :=
    exists_withArguments (t := erased "Ljava/util/List;") (by decide) (by decide) (by decide)
      (List.cons_ne_nil _ _) ha
  have harguments : u.typeArguments = [.just ⟨"La$b;", some "La.b;"⟩] :=
    Argument.eq_of_forall₂_isReadAs hread (by decide)
  refine ⟨by decide, by decide, by decide, u, hu, harguments, ?_⟩
  rw [harguments]
  decide

end JavaType
end JvmWeave
