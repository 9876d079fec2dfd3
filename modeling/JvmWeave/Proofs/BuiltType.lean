import JvmWeave.Proofs.MethodReading

/-!
# The types that operations make

Every operation makes a valid type of valid ones, but for the one that writes type arguments: it
copies the descriptor of a class that has no generic form into the one it makes, where a dot in the
name is taken for that of an inner class.

`Builds` lists the operations with the types that go into them, so that the theorem about them is
one and a new operation is one more case of it.  Operations that may fail are there with a
hypothesis that they do not.  Resolution is among them, and there the parts are none: what an
expression means is valid if the bounds that are declared are classes, as type variables are written
like classes in descriptors.

The exception has its own `↔`.  Only a class with a dot in its name and without a generic form gets
arguments which do not fit it.
-/

set_option autoImplicit false

namespace JvmWeave

namespace Scope

/-- The bounds that resolve are classes.  A bound is read without its arguments, and it may not lead
back to its own parameter. -/
def BoundsAreClasses (s : Scope) : Prop :=
  ∀ p ∈ s.typeParameters, ∀ bound, p.erasedBound? = some bound →
    ∀ t, s.evaluate [p.name] bound = .ok t → t.IsClass

theorem isClass_of_evaluateName {s : Scope} (hb : s.BoundsAreClasses) {name : String}
    {t : JavaType} (h : s.evaluateName [] name = .ok t) : t.IsClass := by
  rw [evaluateName_eq] at h
  split at h
  · cases h
  · split at h
    · cases hc : s.classOf name.toList with
      | error cause => rw [hc] at h; cases h
      | ok n =>
        rw [hc] at h
        cases h
        exact JavaType.isClass_ofBinaryName n
    · next p hp =>
      have hname : p.name = name := by simpa using List.find?_some hp
      split at h
      · cases h
        exact JavaType.isClass_ofBinaryName .object
      · next bound hbounds =>
        split at h
        · cases h
        · split at h
          · cases h
          · next head arguments hg =>
            have herased := TypeParameter.erasedBound?_of_splitGeneric hbounds hg
            cases hv : s.evaluate [name] (.parse head) with
            | error cause => rw [hv] at h; cases h
            | ok u =>
              rw [hv] at h
              cases h
              exact hb p (List.mem_of_find?_eq_some hp) _ herased u (hname ▸ hv)
      · cases h

/-- The types that expressions mean are valid. -/
theorem Denotes.isValid {s : Scope} (hb : s.BoundsAreClasses) {inner : Bool} {t : JavaType}
    (h : s.Denotes inner t) (hi : inner = false) : t.IsValid := by
  induction h with
  | primitive _ p => exact JavaType.isValid_primitive p
  | @typeVariable inner name _ _ he h =>
    subst hi
    -- A type variable has the descriptor of its bound, and only that of it.
    have hd := JavaType.isValid_erased (isDescriptor_of_evaluateName h)
    have hc := isClass_of_evaluateName hb h
    have hn : ';' ∉ (String.ofList name).toList := by rwa [String.toList_ofList]
    have hv := JavaType.isValid_typeVariable hd hc hn
    exact hv
  | classType _ n => exact JavaType.isValid_ofBinaryName n
  | array _ ih => exact JavaType.isValid_arrayOf (ih hi)
  | applied _ hn hne h =>
    exact JavaType.isValid_of_ofGeneric? (Denotes.applied true hn hne h).ofGeneric?_full

end Scope

namespace JavaType

open Scope

/-- One operation makes a type out of others. -/
inductive Builds : List JavaType → JavaType → Prop
  | ofDescriptor {descriptor : String} {t : JavaType} (h : ofDescriptor descriptor = .ok t) :
    Builds [] t
  | ofParts {descriptor : String} {signature : Option String} {t : JavaType}
    (h : ofParts descriptor signature = .ok t) : Builds [] t
  | primitive (p : Primitive) : Builds [] (primitive p)
  | ofClass {dotted : String} {t : JavaType} (h : ofClass dotted = .ok t) : Builds [] t
  | ofBinaryName (name : BinaryName) : Builds [] (ofBinaryName name)
  | arrayOf (t : JavaType) : Builds [t] (arrayOf t)
  | element {t element : JavaType} (h : t.element? = some element) : Builds [t] element
  | typeVariable {name : String} {bound : JavaType} (hc : bound.IsClass) (hn : ';' ∉ name.toList) :
    Builds [bound] (typeVariable name bound)
  | argument {t type : JavaType} {argument : TypeArgument} (ha : argument ∈ t.typeArguments)
    (ht : argument.type? = some type) : Builds [t] type
  | method {descriptor : String} {signature : Option String} {m : MethodType} {t : JavaType}
    (h : MethodType.parse descriptor signature = .ok m) (ht : t ∈ m.result :: m.parameters) :
    Builds [] t
  | resolve {s : Scope} {text : String} {t : JavaType} (hs : s.WritableParameters)
    (hb : s.BoundsAreClasses) (h : s.resolve text = .ok t) : Builds [] t

theorem Builds.isValid {parts : List JavaType} {t : JavaType} (h : Builds parts t)
    (hp : ∀ p ∈ parts, p.IsValid) : t.IsValid := by
  cases h with
  | ofDescriptor h => exact isValid_of_ofDescriptor h
  | ofParts h => exact isValid_of_ofParts h
  | primitive p => exact isValid_primitive p
  | ofClass h =>
    unfold JavaType.ofClass at h
    split at h
    · cases h
      exact isValid_ofBinaryName _
    · cases h
  | ofBinaryName name => exact isValid_ofBinaryName name
  | arrayOf u => exact isValid_arrayOf (hp u (by simp))
  | element h => exact isValid_element (hp _ (by simp)) h
  | typeVariable hc hn => exact isValid_typeVariable (hp _ (by simp)) hc hn
  | argument ha ht => exact isValid_of_mem_typeArguments ha ht
  | method h ht => exact MethodType.isValid_of_mem_parse h t ht
  | resolve hs hb h => exact (denotes_of_typeOf hs h).isValid hb rfl

/-- Operations on valid types make valid types.  Type arguments do so exactly if there are none, or
the class has a generic form, or its name has no dot. -/
theorem isValid_built (parts : List JavaType) (t : JavaType)
    (hp : ∀ p ∈ parts, p.IsValid ∧ p.VariableAvoids ['<', '>']) :
    (Builds parts t → t.IsValid) ∧
      ∀ (base : JavaType) (arguments : List TypeArgument),
        parts = base :: arguments.filterMap Argument.type? →
        base.withArguments arguments = .ok t →
          (t.IsValid ↔
            arguments = [] ∨ base.signature ≠ none ∨ '.' ∉ base.descriptor.toList) := by
  refine ⟨fun h => h.isValid fun p hm => (hp p hm).1, ?_⟩
  rintro base arguments rfl h
  obtain ⟨⟨hbase, -⟩, harguments⟩ := List.forall_mem_cons.mp hp
  refine isValid_withArguments_iff hbase (fun a ha v hv => harguments v ?_) h
  exact List.mem_filterMap.mpr ⟨a, ha, hv⟩

def list : JavaType := erased "Ljava/util/List;"

/-- Lists of strings, and arrays of these. -/
theorem isValid_built_lists :
    (∀ p ∈ [list, string], p.IsValid ∧ p.VariableAvoids ['<', '>']) ∧
      list.withArguments [.just string] =
        .ok ⟨"Ljava/util/List;", some "Ljava/util/List<Ljava/lang/String;>;"⟩ ∧
      IsValid ⟨"Ljava/util/List;", some "Ljava/util/List<Ljava/lang/String;>;"⟩ ∧
      (arrayOf ⟨"Ljava/util/List;", some "Ljava/util/List<Ljava/lang/String;>;"⟩).IsValid := by
  have hparts : ∀ p ∈ [list, string], p.IsValid ∧ p.VariableAvoids ['<', '>'] := by decide
  have hlist : list.withArguments [.just string] =
      .ok ⟨"Ljava/util/List;", some "Ljava/util/List<Ljava/lang/String;>;"⟩ := by decide
  have hvalid : IsValid ⟨"Ljava/util/List;", some "Ljava/util/List<Ljava/lang/String;>;"⟩ :=
    ((isValid_built [list, string] _ hparts).2 list [.just string] rfl hlist).mpr (by decide)
  refine ⟨hparts, hlist, hvalid, ?_⟩
  exact (isValid_built [_] _ (by simp [hvalid]; decide)).1 (.arrayOf _)

/-- A class with a dot in its name is accepted, and with an argument it no longer fits itself. -/
theorem not_isValid_dottedClass :
    ofDescriptor "La.b;" = .ok (erased "La.b;") ∧
      (erased "La.b;").IsValid ∧ (erased "La.b;").VariableAvoids ['<', '>', ';'] ∧
      (erased "La.b;").withArguments [.any] = .ok ⟨"La.b;", some "La.b<*>;"⟩ ∧
      ¬IsValid ⟨"La.b;", some "La.b<*>;"⟩ := by
  decide

end JavaType
end JvmWeave
