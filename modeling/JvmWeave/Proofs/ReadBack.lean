import JvmWeave.Proofs.Reread

/-!
# Reading names back

A scope writes a type in short, and the short name is meant to be read as the same type again.
`ReadsBack` says for which types it is.  The first condition is on the names of the classes that the
type mentions: whatever rule comes first for a short name must give the class that was shortened.
The other conditions are about names that no compiler writes.
-/

set_option autoImplicit false

namespace JvmWeave

open Text

namespace Scope

/-- The name of the argument is one argument of a list, and has no wildcard but its own. -/
structure ReadsAlone (s : Scope) (a : TypeArgument) : Prop where
  noComma : splitArguments (s.argumentNameOf a).toList = [trim (s.argumentNameOf a).toList]
  noWildcard : ∀ u, a = .just u →
    splitWildcard (trim (s.nameOf u).toList) = .just (trim (s.nameOf u).toList)

/-- The types whose names mean them. -/
def ReadsBack (s : Scope) (t : JavaType) : Prop :=
  match t.primitive? with
  | some _ => t.signature = none
  | none =>
    match t.variableName? with
    | some _ => True
    | none =>
      match t.category with
      | .array =>
        match _he : t.element? with
        | some element => s.ReadsBack element
        | none => False
      | .classType =>
        match t.binaryName? with
        | none => False
        | some n =>
          s.NamesClass (trim (s.classNameOf n)) n ∧
            (t.typeArguments = [] →
              Primitive.ofKeyword? (String.ofList (trim (s.classNameOf n))) = none) ∧
            ∀ a, (_ha : a ∈ t.typeArguments) →
              s.ReadsAlone a ∧ ∀ u, (_hu : a.type? = some u) → s.ReadsBack u
      | _ => False
termination_by t.size
decreasing_by
  · exact JavaType.size_element_lt _he
  · exact JavaType.size_argument_lt _ha _hu

/-! ## The condition for each shape -/

theorem readsBack_of_primitive {s : Scope} {t : JavaType} {p : Primitive}
    (h : t.primitive? = some p) : s.ReadsBack t ↔ t.signature = none := by
  rw [ReadsBack, h]

theorem readsBack_typeVariable {s : Scope} {name : String} {bound : JavaType}
    (h : bound.primitive? = none) : s.ReadsBack (.typeVariable name bound) := by
  have hp : (JavaType.typeVariable name bound).primitive? = none := h
  rw [ReadsBack, hp, JavaType.variableName?_typeVariable]
  trivial

theorem not_readsBack_union {s : Scope} {t : JavaType} (h : '|' ∈ t.descriptor.toList)
    (hp : t.primitive? = none) (hv : t.variableName? = none) : ¬s.ReadsBack t := by
  rw [ReadsBack, hp, hv, JavaType.category_union h]
  exact id

theorem readsBack_arrayOf {s : Scope} {t : JavaType} (h : '|' ∉ t.descriptor.toList) :
    s.ReadsBack (.arrayOf t) ↔ s.ReadsBack t := by
  rw [ReadsBack, JavaType.primitive?_arrayOf, JavaType.variableName?_arrayOf,
    JavaType.category_arrayOf h]
  dsimp only
  split
  · next he =>
    rw [JavaType.element?_arrayOf] at he
    cases he
    rfl
  · next he =>
    rw [JavaType.element?_arrayOf] at he
    cases he

theorem readsBack_class {s : Scope} {t : JavaType} {n : BinaryName}
    (h : t.descriptor = n.descriptor) (hn : '|' ∉ n.text.toList) (hv : t.variableName? = none) :
    s.ReadsBack t ↔ s.NamesClass (trim (s.classNameOf n)) n ∧
      (t.typeArguments = [] →
        Primitive.ofKeyword? (String.ofList (trim (s.classNameOf n))) = none) ∧
      ∀ a ∈ t.typeArguments, s.ReadsAlone a ∧ ∀ u, a.type? = some u → s.ReadsBack u := by
  obtain ⟨hc, hb⟩ := JavaType.binaryName?_of_class h hn
  rw [ReadsBack, JavaType.primitive?_of_class h, hv, hc, hb]

/-! ## All types -/

theorem rereads_iff {s : Scope} (hs : s.WritableParameters) {inner : Bool} {t : JavaType}
    (h : s.Denotes inner t) : s.Rereads t ↔ s.ReadsBack t := by
  induction h with
  | primitive _ p =>
    exact iff_of_true (rereads_primitive s p)
      ((readsBack_of_primitive (JavaType.primitive?_primitive p)).mpr rfl)
  | @typeVariable inner name bound hn _ h =>
    rw [rereads_typeVariable hn h]
    cases hp : (if inner then JavaType.object else bound).primitive? with
    | some p =>
      rw [readsBack_of_primitive (t := .typeVariable _ _) hp]
      exact iff_of_false nofun nofun
    | none => exact iff_of_true rfl (readsBack_typeVariable hp)
  | classType _ n =>
    by_cases hn : '|' ∈ n.text.toList
    · -- A bar makes the name that of a union, which is neither read nor promised.
      have hb := JavaType.bar_mem_descriptor.mpr hn
      have hp := JavaType.primitive?_of_class (t := .ofBinaryName n) rfl
      have hv := JavaType.variableName?_of_signature (t := .ofBinaryName n) rfl
      exact iff_of_false
        (not_rereads_union (JavaType.isDescriptor_ofBinaryName n) hb hp hv)
        (not_readsBack_union hb hp hv)
    · rw [rereads_ofBinaryName hn,
        readsBack_class (n := n) rfl hn (JavaType.variableName?_of_signature rfl),
        JavaType.typeArguments_of_signature rfl]
      simp
  | @array _ t h ih =>
    by_cases hb : '|' ∈ t.descriptor.toList
    · have hb' := JavaType.bar_mem_arrayOf.mpr hb
      have hp := JavaType.primitive?_arrayOf t
      have hv := JavaType.variableName?_arrayOf t
      exact iff_of_false (not_rereads_union h.array.isDescriptor hb' hp hv)
        (not_readsBack_union hb' hp hv)
    · rw [rereads_arrayOf hb, readsBack_arrayOf hb, ih]
  | @applied _ n arguments hn hne h ih =>
    rw [rereads_applied hn hne h hs,
      readsBack_class (n := n) rfl hn (JavaType.variableName?_applied _ _),
      Denotes.typeArguments_applied h]
    have hargument : ∀ a ∈ arguments,
        ((splitArguments (s.argumentNameOf a).toList = [trim (s.argumentNameOf a).toList] ∧
          s.RereadsArgument a) ↔
        (s.ReadsAlone a ∧ ∀ u, a.type? = some u → s.ReadsBack u)) := by
      intro a ha
      rw [rereadsArgument_iff hs (h a ha), ← and_assoc]
      refine and_congr ⟨fun ⟨hc, hw⟩ => ⟨hc, hw⟩, fun ⟨hc, hw⟩ => ⟨hc, hw⟩⟩ ?_
      exact forall₂_congr fun u hu => ih a ha u hu
    rw [forall₂_congr hargument]
    simp [hne]

/-- The name of a type that an expression means is read as the same type exactly if the condition
    holds. -/
theorem resolve_nameOf_iff {s : Scope} (hs : s.WritableParameters) {text : String} {t : JavaType}
    (h : s.resolve text = .ok t) : s.resolve (s.nameOf t) = .ok t ↔ s.ReadsBack t := by
  have hread : ∀ text : String, s.resolve text = s.typeOf (trim text.toList) := fun _ => rfl
  have ht := denotes_of_typeOf hs ((hread text).symm.trans h)
  rw [← rereads_iff hs ht, hread]
  constructor
  · intro hu
    exact ⟨t, hu, rfl⟩
  · rintro ⟨u, hu, hf⟩
    rw [hu, (denotes_of_typeOf hs hu).eq_of_full ht hf]

def listName : BinaryName := ⟨"java/util/List", by decide⟩

/-- A scope that imports the class of lists. -/
def withLists (parameters : List TypeParameter) : Scope :=
  ⟨"me", [.ofClass "java.util.List"], parameters, fun _ => false, {}⟩

/-- The name is read as the class of lists, and is no more than a name. -/
theorem typeOf_listName {parameters : List TypeParameter} :
    (withLists parameters).typeOf "java.util.List".toList =
      (withLists parameters).evaluateName [] (String.ofList "java.util.List".toList) := by
  have hg : splitGeneric "java.util.List".toList = .ok ("java.util.List".toList, none) := by decide
  exact typeOf_named (by decide) (by decide) hg

/-- Lists of lists are written as `List<List>`. -/
theorem resolve_nameOf_lists :
    let lists : JavaType := .applied listName [.just (.ofBinaryName listName)]
    (withLists []).WritableParameters ∧
      (withLists []).resolve "java.util.List<java.util.List>" = .ok lists ∧
      (withLists []).resolve ((withLists []).nameOf lists) = .ok lists := by
  have hlist : (withLists []).evaluateName [] (String.ofList "java.util.List".toList) =
      .ok (.ofBinaryName listName) :=
    namesClass_iff.mp ⟨by decide, notBlank_of_all (by decide), by decide, by decide⟩
  have hargument : (withLists []).argumentOf "java.util.List".toList =
      .ok (.just (.ofBinaryName listName)) := by
    have hw : splitWildcard "java.util.List".toList = .just "java.util.List".toList := by decide
    rw [argumentOf_eq, hw]
    dsimp only
    rw [typeOf_listName, hlist]
    rfl
  have hresolve : (withLists []).resolve "java.util.List<java.util.List>" =
      .ok (.applied listName [.just (.ofBinaryName listName)]) := by
    have hg : splitGeneric "java.util.List<java.util.List>".toList =
        .ok ("java.util.List".toList, some "java.util.List".toList) := by decide
    have hsplit : splitArguments "java.util.List".toList = ["java.util.List".toList] := by decide
    refine (typeOf_applied_eq_ok_iff (by decide) (by decide) hg).mpr
      ⟨_, _, hlist, ?_, by decide, rfl⟩
    rw [hsplit, List.map_singleton, hargument]
    rfl
  have hdenotes : ∀ a ∈ [Argument.just (JavaType.ofBinaryName listName)], ∀ u, a.type? = some u →
      (withLists []).Denotes true u := by
    simp only [List.mem_singleton, forall_eq, Argument.type?, Option.some.injEq, forall_eq']
    exact .classType true listName
  have hclass : (withLists []).NamesClass (trim ((withLists []).classNameOf listName)) listName :=
    ⟨by decide, notBlank_of_all (by decide), by decide, by decide⟩
  have hname : ((withLists []).nameOf (.ofBinaryName listName)).toList = "List".toList := by
    rw [nameOf_ofBinaryName (by decide)]
    decide
  have helement : (withLists []).ReadsBack (.ofBinaryName listName) := by
    rw [readsBack_class (n := listName) rfl (by decide) (JavaType.variableName?_of_signature rfl),
      JavaType.typeArguments_of_signature rfl]
    exact ⟨hclass, fun _ => by decide, List.forall_mem_nil _⟩
  have hs : (withLists []).WritableParameters := List.forall_mem_nil _
  refine ⟨hs, hresolve, (resolve_nameOf_iff hs hresolve).mpr ?_⟩
  rw [readsBack_class (n := listName) rfl (by decide) (JavaType.variableName?_applied _ _),
    Denotes.typeArguments_applied hdenotes]
  refine ⟨hclass, fun h => absurd h (List.cons_ne_nil _ _),
    List.forall_mem_singleton.mpr ⟨⟨?_, ?_⟩, ?_⟩⟩
  · show splitArguments ((withLists []).nameOf (.ofBinaryName listName)).toList =
      [trim ((withLists []).nameOf (.ofBinaryName listName)).toList]
    rw [hname]
    decide
  · rintro u hu
    cases hu
    rw [hname]
    decide
  · rintro u hu
    cases hu
    exact helement

/-- The import gives the class of lists the name of a type parameter, which comes first. -/
theorem resolve_nameOf_shadowed :
    (withLists [⟨"List", []⟩]).resolve "java.util.List" = .ok (.ofBinaryName listName) ∧
      (withLists [⟨"List", []⟩]).resolve
        ((withLists [⟨"List", []⟩]).nameOf (.ofBinaryName listName)) =
          .ok (.typeVariable "List" .object) ∧
      JavaType.typeVariable "List" .object ≠ .ofBinaryName listName := by
  refine ⟨?_, ?_, by decide⟩
  · show (withLists [⟨"List", []⟩]).typeOf "java.util.List".toList = _
    rw [typeOf_listName]
    exact namesClass_iff.mp ⟨by decide, notBlank_of_all (by decide), by decide, by decide⟩
  · have hname : ((withLists [⟨"List", []⟩]).nameOf (.ofBinaryName listName)).toList =
        "List".toList := by
      rw [nameOf_ofBinaryName (by decide)]
      decide
    have hg : splitGeneric "List".toList = .ok ("List".toList, none) := by decide
    -- The parameter is looked up before the import has a say.
    show (withLists [⟨"List", []⟩]).typeOf (trim _) = _
    rw [hname]
    show (withLists [⟨"List", []⟩]).typeOf "List".toList = _
    rw [typeOf_named (by decide) (by decide) hg, evaluateName, if_neg (by decide)]
    split
    · next hp => cases hp
    · next p hp =>
      cases hp
      rfl

end Scope
end JvmWeave
