import JvmWeave.Proofs.Naming
import JvmWeave.Proofs.ValidType

/-!
# Full names

A type has the name that source needs in a scope, which imports make shorter, and its full name.
The two are found by two recursions that take a type apart in a different order: the first asks
whether the type is primitive or a type variable before it looks at the category, and the second
looks at the category first.  Where nothing is imported they agree (`nameOf_eq_javaName`).

The order is why it matters that the type is valid.  A type variable with the descriptor of a class
is found by both, and any other descriptor would hide it from the second one.
-/

set_option autoImplicit false

namespace JvmWeave

open Text

namespace JavaType

/-- What holds of a type if it holds of its elements and of its arguments holds of all types. -/
@[elab_as_elim]
theorem induction_on_parts {motive : JavaType → Prop} (t : JavaType)
    (parts : ∀ t, (∀ element, t.element? = some element → motive element) →
      (∀ a ∈ t.typeArguments, ∀ u, a.type? = some u → motive u) → motive t) : motive t := by
  apply parts
  · intro element he
    exact induction_on_parts element parts
  · intro a ha u hu
    exact induction_on_parts u parts
termination_by t.size
decreasing_by
  · exact size_element_lt he
  · exact size_argument_lt ha hu

/-! ## Type variables that erase to classes -/

theorem exists_signature_of_variable {t : JavaType} {name : String}
    (hv : t.variableName? = some name) :
    ∃ s rest, t.signature = some s ∧ s.toList = 'T' :: rest := by
  unfold variableName? at hv
  split at hv
  · next rest hm =>
    obtain ⟨s, hs, hrest⟩ := Option.map_eq_some_iff.mp hm
    exact ⟨s, rest, hs, hrest⟩
  · cases hv

/-- A type variable has the descriptor of a class. -/
theorem IsValid.isClass_of_variable {t : JavaType} (h : t.IsValid) {name : String}
    (hv : t.variableName? = some name) : t.IsClass := by
  obtain ⟨hd, hs⟩ := isValid_iff.mp h
  obtain ⟨s, rest, hsig, hrest⟩ := exists_signature_of_variable hv
  rcases head?_of_erasesTo (hs s hsig).2.2 with hhead | ⟨-, hclass⟩
  · -- No descriptor starts like the generic form of a type variable.
    rw [hrest] at hhead
    obtain ⟨cs, hcs⟩ := List.head?_eq_some_iff.mp hhead.symm
    rw [hcs] at hd
    exact absurd rfl hd.head_ne_variable
  · exact hclass

/-- A type variable among the arguments of a type is bounded by nothing but `Object`. -/
theorem descriptor_of_mem_typeArguments {t u : JavaType} {a : TypeArgument}
    (ha : a ∈ t.typeArguments) (hu : a.type? = some u) {name : String}
    (hv : u.variableName? = some name) : u.descriptor = BinaryName.object.descriptor := by
  obtain ⟨cs, hcs⟩ := exists_generic_of_mem_typeArguments ha hu
  obtain ⟨s, rest, hs, hrest⟩ := exists_signature_of_variable hv
  have hvariable : cs = 'T' :: rest := by
    rcases signature_of_ofGeneric? hcs with hnone | hsome
    · rw [hnone] at hs
      cases hs
    · rw [hsome] at hs
      rw [← hrest, ← Option.some.inj hs, String.toList_ofList]
  obtain ⟨descriptor, herasure, hof⟩ := exists_of_ofGeneric? hcs
  rw [hvariable] at herasure
  have hobject : BinaryName.object.descriptor.toList = descriptor := Option.some.inj herasure
  rw [descriptor_of_ofSignature hof, ← hobject, String.ofList_toList]

/-- What is not read as a union has a mark in none of its elements. -/
theorem bar_not_mem_of_element {t element : JavaType} (hc : t.category = .array)
    (he : t.element? = some element) : '|' ∉ element.descriptor.toList := by
  intro hbar
  unfold element? at he
  split at he
  · next rest hd =>
    cases he
    rw [String.toList_ofList] at hbar
    have hmem : '|' ∈ t.descriptor.toList := by
      rw [hd]
      exact List.mem_cons_of_mem _ hbar
    rw [category_union hmem] at hc
    cases hc
  · cases he

end JavaType

namespace Scope

theorem argumentNameOf_eq_javaName {s : Scope} {a : TypeArgument}
    (h : ∀ u, a.type? = some u → s.nameOf u = u.javaName) : s.argumentNameOf a = a.javaName := by
  cases a with
  | any => rfl
  | just u => exact h u rfl
  | subtypesOf u => exact congrArg ("? extends " ++ ·) (h u rfl)
  | supertypesOf u => exact congrArg ("? super " ++ ·) (h u rfl)

section

variable {s : Scope} {t : JavaType}

/-- A type variable is found by its generic form, and by its category if that is of a class. -/
theorem nameOf_eq_javaName_of_variable {name : String} (ht : t.IsValid) (hp : t.primitive? = none)
    (hv : t.variableName? = some name) (hb : '|' ∉ t.descriptor.toList) :
    s.nameOf t = t.javaName := by
  obtain ⟨cs, hcs⟩ := List.head?_eq_some_iff.mp (ht.isClass_of_variable hv)
  rw [nameOf_of_variable hp hv, JavaType.javaName_eq, JavaType.category_class hcs hb, hv]
  rfl

theorem nameOf_eq_javaName_of_array (hp : t.primitive? = none) (hv : t.variableName? = none)
    (hc : t.category = .array)
    (h : ∀ element, t.element? = some element → s.nameOf element = element.javaName) :
    s.nameOf t = t.javaName := by
  cases he : t.element? with
  | none => exact nameOf_of_unnamed hp hv (fun _ => he) fun hc' => nomatch hc.symm.trans hc'
  | some element =>
    rw [nameOf_of_element hp hv hc he, JavaType.javaName_eq, hc, he, h element he]
    rfl

/-- Without imports there is nothing to take away from the name of a class. -/
theorem shortClassName_of_no_imports (hi : s.imports = []) (hl : s.settings.implicitJavaLang = false)
    (qualified : List Char) : s.shortClassName qualified = qualified := by
  unfold shortClassName
  rw [hi, hl]
  rfl

theorem nameOf_eq_javaName_of_class (hi : s.imports = [])
    (hl : s.settings.implicitJavaLang = false) (hp : t.primitive? = none)
    (hv : t.variableName? = none) (hc : t.category = .classType)
    (h : ∀ a ∈ t.typeArguments, s.argumentNameOf a = a.javaName) : s.nameOf t = t.javaName := by
  cases hn : t.className? with
  | none => exact nameOf_of_unnamed hp hv (fun hc' => nomatch hc.symm.trans hc') fun _ => hn
  | some name =>
    rw [nameOf_of_className hp hv hc hn, JavaType.javaName_eq, hc, hv, hn, List.map_congr_left h,
      shortClassName_of_no_imports hi hl]
    rfl

/-- By induction on the parts of the type, each of which is valid again. -/
theorem nameOf_of_isValid (hi : s.imports = []) (hl : s.settings.implicitJavaLang = false)
    (ht : t.IsValid) (hb : t.isVariable = true → '|' ∉ t.descriptor.toList) :
    s.nameOf t = t.javaName := by
  induction t using JavaType.induction_on_parts with
  | parts t ihElement ihArguments =>
    cases hp : t.primitive? with
    | some p =>
      rw [nameOf_of_primitive hp, JavaType.javaName_eq, JavaType.category_of_primitive? hp, hp]
      rfl
    | none =>
      cases hv : t.variableName? with
      | some name =>
        exact nameOf_eq_javaName_of_variable ht hp hv (hb (Option.isSome_of_eq_some hv))
      | none =>
        cases hc : t.category with
        | array =>
          apply nameOf_eq_javaName_of_array hp hv hc
          intro element he
          apply ihElement element he (JavaType.isValid_element ht he)
          intro _
          exact JavaType.bar_not_mem_of_element hc he
        | classType =>
          apply nameOf_eq_javaName_of_class hi hl hp hv hc
          intro a ha
          apply argumentNameOf_eq_javaName
          intro u hu
          apply ihArguments a ha u hu (JavaType.isValid_of_mem_typeArguments ha hu)
          intro hvariable
          obtain ⟨name, hname⟩ := Option.isSome_iff_exists.mp hvariable
          rw [JavaType.descriptor_of_mem_typeArguments ha hu hname]
          decide
        | _ =>
          apply nameOf_of_unnamed hp hv
          · intro hc'
            cases hc.symm.trans hc'
          · intro hc'
            cases hc.symm.trans hc'

/-- Where nothing is imported, the name of a type is its full name.  Only a type variable must not
have a bound that is taken for a union, as that would hide the variable from the full name. -/
theorem nameOf_eq_javaName {descriptor : String} {signature : Option String} (hi : s.imports = [])
    (hl : s.settings.implicitJavaLang = false)
    (ht : JavaType.ofParts descriptor signature = .ok t)
    (hb : t.isVariable = true → '|' ∉ t.descriptor.toList) : s.nameOf t = t.javaName :=
  nameOf_of_isValid hi hl (JavaType.isValid_of_ofParts ht) hb

end

/-- Arrays, wildcards and a type variable inside of type arguments inside of type arguments. -/
theorem nameOf_eq_javaName_map :
    let s : Scope := ⟨"me", [], [⟨"K", []⟩], fun _ => true, ⟨false, false⟩⟩
    let t : JavaType := ⟨"Ljava/util/Map;", some "Ljava/util/Map<[TK;+Lme/Box<-[I*>;>;"⟩
    JavaType.ofParts t.descriptor t.signature = .ok t ∧ s.nameOf t = t.javaName := by
  have ht : JavaType.ofParts "Ljava/util/Map;" (some "Ljava/util/Map<[TK;+Lme/Box<-[I*>;>;") =
      .ok ⟨"Ljava/util/Map;", some "Ljava/util/Map<[TK;+Lme/Box<-[I*>;>;"⟩ := by rfl
  exact ⟨ht, nameOf_eq_javaName rfl rfl ht nofun⟩

/-- The bound of this type variable is taken for a union, and the variable is not found. -/
example : (⟨"Lp/A|B;", some "TT;"⟩ : JavaType).javaName = "Lp/A | B;" := by
  rw [JavaType.javaName_union (by decide)]
  decide

end Scope
end JvmWeave
