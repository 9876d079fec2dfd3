import JvmWeave.Proofs.Assignable
import JvmWeave.Proofs.MethodReading
import JvmWeave.Proofs.Naming

/-!
# Assignability as an order

Two types that are assignable to each other have the same descriptor, and arrays of types that are
not primitive are compared like the types themselves.

Only the first of these needs to know where a type comes from.  A class is recognized by the first
character of its descriptor and its name is read without the last one, so a class that ends in
anything but a semicolon would pass for another one.  No operation makes it (`Made.endsClass`).
-/

set_option autoImplicit false

namespace JvmWeave
namespace JavaType

/-! ## The types that there are -/

/-- The types that are made by operations, whatever these are applied to. -/
inductive Made : JavaType → Prop
  | ofParts {descriptor : String} {signature : Option String} {t : JavaType}
    (h : ofParts descriptor signature = .ok t) : Made t
  | primitive (p : Primitive) : Made (primitive p)
  | ofBinaryName (name : BinaryName) : Made (ofBinaryName name)
  | unknown : Made unknown
  | unionOf {members : List JavaType} (h : ∀ m ∈ members, Made m) : Made (unionOf members)
  | typeVariable (name : String) {bound : JavaType} (h : Made bound) :
    Made (typeVariable name bound)
  | arrayOf {t : JavaType} (h : Made t) : Made (arrayOf t)
  | element {t element : JavaType} (h : Made t) (he : t.element? = some element) : Made element
  | withArguments {t u : JavaType} {arguments : List TypeArgument} (h : Made t)
    (hu : t.withArguments arguments = .ok u) : Made u
  | argument {t type : JavaType} {argument : TypeArgument} (h : Made t)
    (ha : argument ∈ t.typeArguments) (ht : argument.type? = some type) : Made type
  | method {descriptor : String} {signature : Option String} {m : MethodType} {t : JavaType}
    (h : MethodType.parse descriptor signature = .ok m) (ht : t ∈ m.result :: m.parameters) :
    Made t
  | resolve {s : Scope} {text : String} {t : JavaType} (h : s.resolve text = .ok t) : Made t

/-- A class, behind any number of dimensions, ends in a semicolon.  Unions are told by their mark
and may end in anything. -/
def EndsClass (descriptor : List Char) : Prop :=
  '|' ∉ descriptor → (elementOf descriptor).head? = some 'L' →
    (elementOf descriptor).getLast? = some ';'

theorem elementOf_cons_bracket (cs : List Char) : elementOf ('[' :: cs) = elementOf cs :=
  List.dropWhile_cons_of_pos (by decide)

theorem endsClass_cons_bracket {cs : List Char} : EndsClass ('[' :: cs) ↔ EndsClass cs := by
  unfold EndsClass
  simp [elementOf_cons_bracket]

theorem endsClass_of_isToken {cs : List Char} (h : IsToken .descriptor cs) : EndsClass cs := by
  induction h with
  | primitive p =>
    intro _ hhead
    cases p <;> exact absurd hhead (by decide)
  | typeVariable hd => cases hd
  | @classType body _ =>
    intro _ _
    have he : elementOf ('L' :: (body ++ [';'])) = 'L' :: (body ++ [';']) :=
      List.dropWhile_cons_of_neg (by decide)
    rw [he, ← List.cons_append, List.getLast?_concat]
  | array _ ih => exact endsClass_cons_bracket.mpr ih

/-- A single member is a union by name only, and several are joined by the mark. -/
theorem endsClass_unionOf {members : List JavaType}
    (h : ∀ m ∈ members, EndsClass m.descriptor.toList) :
    EndsClass (unionOf members).descriptor.toList := by
  unfold unionOf erased
  rw [String.toList_ofList]
  match members, h with
  | [], _ =>
    intro _ hhead
    cases hhead
  | [m], h =>
    rw [List.map_singleton, Text.join]
    exact h m List.mem_cons_self
  | m :: n :: members, _ =>
    intro hbar
    rw [List.map_cons, Text.join_cons (by simp)] at hbar
    exact absurd (List.mem_append_right _ List.mem_cons_self) hbar

theorem Made.endsClass {t : JavaType} (h : Made t) : EndsClass t.descriptor.toList := by
  have hvalid {u : JavaType} (hu : u.IsValid) : EndsClass u.descriptor.toList :=
    endsClass_of_isToken (isValid_iff.mp hu).1
  induction h with
  | ofParts h => exact hvalid (isValid_of_ofParts h)
  | primitive p => exact hvalid (isValid_primitive p)
  | ofBinaryName name => exact hvalid (isValid_ofBinaryName name)
  | unknown =>
    intro _ hhead
    exact absurd hhead (by decide)
  | unionOf _ ih => exact endsClass_unionOf ih
  | typeVariable _ _ ih => exact ih
  | arrayOf _ ih =>
    rw [toList_descriptor_arrayOf]
    exact endsClass_cons_bracket.mpr ih
  | element _ he ih =>
    unfold element? at he
    split at he
    · next rest hrest =>
      cases he
      rw [hrest] at ih
      rw [String.toList_ofList]
      exact endsClass_cons_bracket.mp ih
    · cases he
  | withArguments _ hu ih =>
    rw [descriptor_of_withArguments hu]
    exact ih
  | argument _ ha ht => exact hvalid (isValid_of_mem_typeArguments ha ht)
  | method h ht => exact hvalid (MethodType.isValid_of_mem_parse h _ ht)
  | resolve h => exact endsClass_of_isToken (Scope.isDescriptor_of_evaluate h).isToken

/-! ## Descriptors from their parts -/

theorem head?_of_category_class {t : JavaType} (h : t.category = .classType) :
    '|' ∉ t.descriptor.toList ∧ ∃ cs, t.descriptor.toList = 'L' :: cs := by
  refine ⟨?_, List.head?_eq_some_iff.mp (isClass_of_category h)⟩
  intro hbar
  rw [category_union hbar] at h
  cases h

theorem descriptor_of_binaryName? {t : JavaType} (ht : EndsClass t.descriptor.toList)
    {n : BinaryName} (h : t.binaryName? = some n) : t.descriptor = n.descriptor := by
  have hc := category_of_binaryName? h
  obtain ⟨hbar, cs, hcs⟩ := head?_of_category_class hc
  have he : elementOf t.descriptor.toList = 'L' :: cs := by
    rw [hcs]
    exact List.dropWhile_cons_of_neg (by decide)
  have hlast := ht hbar (by rw [he]; rfl)
  rw [he] at hlast
  obtain ⟨body, hbody⟩ := List.getLast?_eq_some_iff.mp hlast
  cases body with
  | nil => cases hbody
  | cons c body =>
    have hcs' : cs = body ++ [';'] := (List.cons.inj hbody).2
    unfold binaryName? at h
    rw [if_pos hc, hcs, List.tail_cons, hcs', List.dropLast_concat] at h
    cases hname : BinaryName.ofString (String.ofList body) with
    | error cause =>
      rw [hname] at h
      cases h
    | ok m =>
      rw [hname] at h
      cases h
      apply String.toList_injective
      rw [hcs, hcs', n.toList_descriptor, BinaryName.ofString_eq_ok_iff.mp hname,
        String.toList_ofList]

theorem toList_innermost (t : JavaType) :
    t.innermost.descriptor.toList = elementOf t.descriptor.toList :=
  String.toList_ofList

/-- A descriptor is its dimensions and what they are dimensions of. -/
theorem toList_descriptor_eq (t : JavaType) :
    t.descriptor.toList = List.replicate t.dimensions '[' ++ t.innermost.descriptor.toList := by
  have hd : t.descriptor.toList.takeWhile (· = '[') = List.replicate t.dimensions '[' := by
    apply List.eq_replicate_of_mem
    intro c hc
    simpa using List.mem_takeWhile_imp hc
  rw [toList_innermost, ← hd]
  exact List.takeWhile_append_dropWhile.symm

theorem descriptor_eq_of_innermost {a b : JavaType} (hd : a.dimensions = b.dimensions)
    (hi : a.innermost.descriptor = b.innermost.descriptor) : a.descriptor = b.descriptor := by
  apply String.toList_injective
  rw [toList_descriptor_eq a, toList_descriptor_eq b, hd, hi]

theorem elementOf_elementOf (cs : List Char) : elementOf (elementOf cs) = elementOf cs := by
  induction cs with
  | nil => rfl
  | cons c cs ih =>
    by_cases hc : c = '['
    · rw [hc, elementOf_cons_bracket, ih]
    · have he : elementOf (c :: cs) = c :: cs := List.dropWhile_cons_of_neg (by simpa using hc)
      rw [he, he]

theorem endsClass_innermost {t : JavaType} (ht : EndsClass t.descriptor.toList) :
    EndsClass t.innermost.descriptor.toList := by
  intro hbar
  rw [toList_innermost, elementOf_elementOf]
  apply ht
  rw [toList_descriptor_eq]
  simp [hbar]

/-! ## No two types are assignable to each other -/

theorem descriptor_eq_of_flat {a b : JavaType} (ha : EndsClass a.descriptor.toList)
    (hb : EndsClass b.descriptor.toList) (hab : isAssignableFlat a b = true)
    (hba : isAssignableFlat b a = true) : a.descriptor = b.descriptor := by
  rcases isAssignableFlat_iff.mp hab with he | ⟨p, hp, -, hint⟩ | ⟨hca, hob⟩ | ⟨hca, hacc⟩
  · exact he
  · -- Nothing is wider than `int`.
    rcases isAssignableFlat_iff.mp hba with he | ⟨q, hq, hw, -⟩ | ⟨hcb, -⟩ | ⟨hcb, -⟩
    · exact he.symm
    · rw [hint] at hq
      cases hq
      cases hw
    · simp [hint] at hcb
    · simp [hint] at hcb
  · rcases isAssignableFlat_iff.mp hba with he | ⟨q, -, -, hint⟩ | ⟨-, hoa⟩ | ⟨hcb, -⟩
    · exact he.symm
    · simp [hca] at hint
    · rw [descriptor_of_binaryName? ha hoa, descriptor_of_binaryName? hb hob]
    · simp [category_of_binaryName? hob] at hcb
  · have hcb := category_of_acceptsArrays hacc
    rcases isAssignableFlat_iff.mp hba with he | ⟨q, hq, -, -⟩ | ⟨-, hoa⟩ | ⟨hcb', -⟩
    · exact he.symm
    · simp [hcb] at hq
    · simp [category_of_binaryName? hoa] at hca
    · simp [hcb] at hcb'

theorem descriptor_eq_of_isAssignable {a b : JavaType} (ha : EndsClass a.descriptor.toList)
    (hb : EndsClass b.descriptor.toList) (hab : a.isAssignable b = true)
    (hba : b.isAssignable a = true) : a.descriptor = b.descriptor := by
  rcases isAssignable_iff.mp hab with hf | ⟨hca, hcb, hr⟩
  · rcases isAssignable_iff.mp hba with hf' | ⟨hcb, hca, -⟩
    · exact descriptor_eq_of_flat ha hb hf hf'
    · exact descriptor_eq_of_flat_array hcb hf
  · rcases isAssignable_iff.mp hba with hf' | ⟨-, -, hr'⟩
    · exact (descriptor_eq_of_flat_array hca hf').symm
    · -- Dimensions are only lost on the way, so that none is lost on the way there and back.
      rcases isAssignableArray_iff.mp hr with ⟨hd, -, -, hi⟩ | ⟨hd, -⟩
      · rcases isAssignableArray_iff.mp hr' with ⟨-, -, -, hi'⟩ | ⟨hd', -⟩
        · exact descriptor_eq_of_innermost hd
            (descriptor_eq_of_flat (endsClass_innermost ha) (endsClass_innermost hb) hi hi')
        · omega
      · rcases isAssignableArray_iff.mp hr' with ⟨hd', -⟩ | ⟨hd', -⟩
        · omega
        · omega

/-! ## Arrays -/

theorem innermost_arrayOf (t : JavaType) : (arrayOf t).innermost = t.innermost := by
  unfold innermost
  rw [toList_descriptor_arrayOf, elementOf_cons_bracket]

theorem dimensions_arrayOf (t : JavaType) : (arrayOf t).dimensions = t.dimensions + 1 := by
  unfold dimensions dimensionsOf
  rw [toList_descriptor_arrayOf, List.takeWhile_cons_of_pos (by decide), List.length_cons]

theorem dimensions_of_not_array {t : JavaType} (hbar : '|' ∉ t.descriptor.toList)
    (h : t.category ≠ .array) : t.dimensions = 0 ∧ t.innermost.descriptor = t.descriptor := by
  have hhead : t.descriptor.toList.head? ≠ some '[' := by
    intro hhead
    obtain ⟨cs, hcs⟩ := List.head?_eq_some_iff.mp hhead
    exact h (category_array hcs hbar)
  have hzero : t.dimensions = 0 := by
    unfold dimensions dimensionsOf
    cases hd : t.descriptor.toList with
    | nil => rfl
    | cons c cs =>
      rw [hd] at hhead
      have hc : c ≠ '[' := by simpa using hhead
      simp [hc]
  have hparts := toList_descriptor_eq t
  rw [hzero, List.replicate_zero, List.nil_append] at hparts
  exact ⟨hzero, String.toList_injective hparts.symm⟩

theorem category_of_isAssignable {a b : JavaType} (h : a.isAssignable b = true) :
    a.descriptor = b.descriptor ∨ a.category ≠ .union ∧ b.category ≠ .union := by
  rcases isAssignable_iff.mp h with hf | ⟨hca, hcb, -⟩
  · rcases isAssignableFlat_iff.mp hf with he | ⟨p, hp, -, hint⟩ | ⟨hca, hob⟩ | ⟨hca, hacc⟩
    · exact .inl he
    · exact .inr (by simp [hp, hint])
    · exact .inr (by simp [hca, category_of_binaryName? hob])
    · exact .inr (by simp [hca, category_of_acceptsArrays hacc])
  · exact .inr (by simp [hca, hcb])

/-- Types marked as unions are only assignable to themselves, and so are their arrays. -/
theorem isAssignable_union_iff {a b : JavaType}
    (h : '|' ∈ a.descriptor.toList ∨ '|' ∈ b.descriptor.toList) :
    a.isAssignable b = true ↔ a.descriptor = b.descriptor := by
  constructor
  · intro hab
    rcases category_of_isAssignable hab with he | ⟨hca, hcb⟩
    · exact he
    · rcases h with h | h
      · exact absurd (category_union h) hca
      · exact absurd (category_union h) hcb
  · intro he
    exact isAssignable_of_flat (isAssignableFlat_iff.mpr (.inl he))

theorem descriptor_arrayOf_inj {a b : JavaType} :
    (arrayOf a).descriptor = (arrayOf b).descriptor ↔ a.descriptor = b.descriptor := by
  constructor
  · intro h
    have hl := congrArg String.toList h
    rw [toList_descriptor_arrayOf, toList_descriptor_arrayOf] at hl
    exact String.toList_injective (List.cons.inj hl).2
  · intro h
    unfold arrayOf
    rw [h]

/-- Arrays are compared by dimensions and innermost elements. -/
theorem isAssignable_arrayOf_iff {a b : JavaType} (ha : '|' ∉ a.descriptor.toList)
    (hb : '|' ∉ b.descriptor.toList) :
    (arrayOf a).isAssignable (arrayOf b) = true ↔
      a.descriptor = b.descriptor ∨ isAssignableArray a b = true := by
  have harray : isAssignableArray (arrayOf a) (arrayOf b) = isAssignableArray a b := by
    unfold isAssignableArray
    simp only [innermost_arrayOf, dimensions_arrayOf, Nat.add_right_cancel_iff,
      Nat.add_lt_add_iff_right]
  unfold isAssignable
  rw [if_pos ⟨category_arrayOf ha, category_arrayOf hb⟩, harray, Bool.or_eq_true,
    decide_eq_true_eq, descriptor_arrayOf_inj]

theorem isAssignable_iff_flat {a b : JavaType}
    (h : ¬(a.category = .array ∧ b.category = .array)) :
    a.isAssignable b = true ↔ isAssignableFlat a b = true := by
  rw [isAssignable_iff]
  constructor
  · intro hab
    rcases hab with hf | ⟨hca, hcb, -⟩
    · exact hf
    · exact absurd ⟨hca, hcb⟩ h
  · exact Or.inl

theorem isPrimitive_congr {a b : JavaType} (h : a.descriptor = b.descriptor) :
    a.isPrimitive = b.isPrimitive := by
  simp only [isPrimitive, primitive?, h]

theorem dimensions_pos {t : JavaType} (h : t.category = .array) : 0 < t.dimensions := by
  have hhead : ∃ cs, t.descriptor.toList = '[' :: cs := by
    unfold category at h
    split at h
    · cases h
    · split at h
      · cases h
      · split at h
        · cases h
        · next c cs hd =>
          split at h
          · next hc => exact ⟨cs, hc ▸ hd⟩
          · split at h
            · cases h
            · split at h <;> cases h
  obtain ⟨cs, hcs⟩ := hhead
  unfold dimensions dimensionsOf
  simp [hcs]

/-- Without dimensions to be taken away first, types are compared as the elements of arrays are. -/
theorem isAssignable_iff_array {a b : JavaType} (ha : '|' ∉ a.descriptor.toList)
    (hb : '|' ∉ b.descriptor.toList) (hpa : a.isPrimitive = false) (hpb : b.isPrimitive = false) :
    a.isAssignable b = true ↔ a.descriptor = b.descriptor ∨ isAssignableArray a b = true := by
  by_cases hca : a.category = .array
  · by_cases hcb : b.category = .array
    · unfold isAssignable
      rw [if_pos ⟨hca, hcb⟩, Bool.or_eq_true, decide_eq_true_eq]
    · obtain ⟨hzero, hi⟩ := dimensions_of_not_array hb hcb
      have hpos := dimensions_pos hca
      rw [isAssignable_iff_flat (fun h => hcb h.2), isAssignableFlat_iff, isAssignableArray_iff,
        acceptsArrays_congr hi]
      simp [hca, hzero, hpos, Nat.ne_of_gt hpos]
  · obtain ⟨hzero, hi⟩ := dimensions_of_not_array ha hca
    rw [isAssignable_iff_flat (fun h => hca h.1), isAssignableArray_iff]
    by_cases hcb : b.category = .array
    · have hpos := dimensions_pos hcb
      have hne : a.dimensions ≠ b.dimensions := by omega
      have hlt : ¬b.dimensions < a.dimensions := by omega
      simp only [hne, hlt, false_and, or_self, or_false]
      constructor
      · exact descriptor_eq_of_flat_array hcb
      · exact fun he => isAssignableFlat_iff.mpr (.inl he)
    · obtain ⟨hzero', hi'⟩ := dimensions_of_not_array hb hcb
      rw [isAssignableFlat_congr hi hi', isPrimitive_congr hi, isPrimitive_congr hi', hzero, hzero']
      simp only [hpa, hpb, Nat.lt_irrefl, true_and, false_and, or_false]
      constructor
      · exact Or.inr
      · intro h
        rcases h with he | hf
        · exact isAssignableFlat_iff.mpr (.inl he)
        · exact hf

/-- Arrays of types that are not primitive are compared like the types. -/
theorem isAssignable_arrayOf {a b : JavaType} (hpa : a.isPrimitive = false)
    (hpb : b.isPrimitive = false) :
    (arrayOf a).isAssignable (arrayOf b) = true ↔ a.isAssignable b = true := by
  by_cases hbar : '|' ∈ a.descriptor.toList ∨ '|' ∈ b.descriptor.toList
  · have hbar' : '|' ∈ (arrayOf a).descriptor.toList ∨ '|' ∈ (arrayOf b).descriptor.toList := by
      rwa [bar_mem_arrayOf, bar_mem_arrayOf]
    rw [isAssignable_union_iff hbar, isAssignable_union_iff hbar', descriptor_arrayOf_inj]
  · obtain ⟨ha, hb⟩ := not_or.mp hbar
    rw [isAssignable_arrayOf_iff ha hb, isAssignable_iff_array ha hb hpa hpb]

theorem not_isAssignableArray_of_primitive {a b : JavaType}
    (h : a.isPrimitive = true ∨ b.isPrimitive = true) : isAssignableArray a b = false := by
  rw [Bool.eq_false_iff]
  intro hab
  have hkept {t : JavaType} (ht : t.isPrimitive = true) :
      t.dimensions = 0 ∧ t.innermost.isPrimitive = true ∧ t.innermost.acceptsArrays = false := by
    obtain ⟨p, hp⟩ := Option.isSome_iff_exists.mp ht
    unfold dimensions innermost
    rw [descriptor_of_primitive? hp]
    cases p <;> decide
  rcases isAssignableArray_iff.mp hab with ⟨-, hpa, hpb, -⟩ | ⟨hd, hacc⟩
  · rcases h with h | h
    · simp [(hkept h).2.1] at hpa
    · simp [(hkept h).2.1] at hpb
  · rcases h with h | h
    · simp [(hkept h).1] at hd
    · simp [(hkept h).2.2] at hacc

/-- Arrays of primitive types are assignable to nothing but themselves: what widens on its own does
not widen in an array. -/
theorem isAssignable_arrayOf_primitive {a b : JavaType}
    (h : a.isPrimitive = true ∨ b.isPrimitive = true) :
    (arrayOf a).isAssignable (arrayOf b) = true ↔ a.descriptor = b.descriptor := by
  by_cases hbar : '|' ∈ a.descriptor.toList ∨ '|' ∈ b.descriptor.toList
  · have hbar' : '|' ∈ (arrayOf a).descriptor.toList ∨ '|' ∈ (arrayOf b).descriptor.toList := by
      rwa [bar_mem_arrayOf, bar_mem_arrayOf]
    rw [isAssignable_union_iff hbar', descriptor_arrayOf_inj]
  · obtain ⟨ha, hb⟩ := not_or.mp hbar
    rw [isAssignable_arrayOf_iff ha hb, not_isAssignableArray_of_primitive h]
    simp

/-! ## All of it -/

/-- Assignability is a partial order on descriptors.  What is assignable is stored alike, and arrays
are compared like their elements, unless these are primitive. -/
theorem isAssignable_partialOrder (a b c : JavaType) :
    a.isAssignable a = true ∧
      (a.isAssignable b = true → b.isAssignable c = true → a.isAssignable c = true) ∧
      (Made a → Made b → a.isAssignable b = true → b.isAssignable a = true →
        a.descriptor = b.descriptor) ∧
      (∀ storage, a.isAssignable b = true → StorageClass.ofType b = .ok storage →
        StorageClass.ofType a = .ok storage) ∧
      (a.isPrimitive = false → b.isPrimitive = false →
        ((arrayOf a).isAssignable (arrayOf b) = true ↔ a.isAssignable b = true)) ∧
      (a.isPrimitive = true ∨ b.isPrimitive = true →
        ((arrayOf a).isAssignable (arrayOf b) = true ↔ a.descriptor = b.descriptor)) := by
  refine ⟨isAssignable_refl a, isAssignable_trans, ?_, ?_, isAssignable_arrayOf,
    isAssignable_arrayOf_primitive⟩
  · intro ha hb
    exact descriptor_eq_of_isAssignable ha.endsClass hb.endsClass
  · intro storage
    exact storageClass_of_isAssignable

/-- A matrix of integers is an array of objects and an object, an array of bytes is no array of
integers, and a union of one member is that member. -/
theorem isAssignable_partialOrder_arrays :
    (arrayOf (arrayOf (primitive .int))).isAssignable (arrayOf object) = true ∧
      (arrayOf (arrayOf (primitive .int))).isAssignable object = true ∧
      StorageClass.ofType (arrayOf (arrayOf (primitive .int))) = .ok .reference ∧
      (arrayOf (primitive .byte)).isAssignable (arrayOf (primitive .int)) = false ∧
      (unionOf [object]).descriptor = object.descriptor := by
  have hmatrix : (arrayOf (arrayOf (primitive .int))).isAssignable (arrayOf object) = true := by
    obtain ⟨-, -, -, -, harray, -⟩ :=
      isAssignable_partialOrder (arrayOf (primitive .int)) object object
    exact (harray rfl rfl).mpr (by decide)
  obtain ⟨-, htrans, -, hstored, -⟩ :=
    isAssignable_partialOrder (arrayOf (arrayOf (primitive .int))) (arrayOf object) object
  obtain ⟨-, -, -, -, -, hbytes⟩ :=
    isAssignable_partialOrder (primitive .byte) (primitive .int) object
  obtain ⟨-, -, hsame, -⟩ := isAssignable_partialOrder (unionOf [object]) object object
  have hobject : Made object := .ofBinaryName .object
  refine ⟨hmatrix, htrans hmatrix (by decide), hstored _ hmatrix (by decide), ?_, ?_⟩
  · rw [Bool.eq_false_iff, ne_eq, hbytes (by decide)]
    decide
  · exact hsame (.unionOf (by simpa using hobject)) hobject (by decide) (by decide)

end JavaType
end JvmWeave
