import JvmWeave.JavaType.Assignable
import JvmWeave.Storage

/-!
# Assignability is a preorder that respects storage

Everything here reads a type through its descriptor only, so the lemmas come in two layers: first
what a single assignment step can be (`isAssignableFlat_iff`, `isAssignable_iff`), and then the
facts that chains of edits and moves of values rest on:

> assignments compose, and a value keeps its storage class when it is used at a wider type.

The signature of a type never matters, which is what the `congr` lemmas say.
-/

set_option autoImplicit false

namespace JvmWeave
namespace JavaType

/-! ## Only the descriptor matters -/

theorem category_congr {a b : JavaType} (h : a.descriptor = b.descriptor) :
    a.category = b.category := by
  simp only [category, h]

theorem binaryName?_congr {a b : JavaType} (h : a.descriptor = b.descriptor) :
    a.binaryName? = b.binaryName? := by
  simp only [binaryName?, category_congr h, h]

theorem acceptsArrays_congr {a b : JavaType} (h : a.descriptor = b.descriptor) :
    a.acceptsArrays = b.acceptsArrays := by
  simp only [acceptsArrays, binaryName?_congr h]

theorem isAssignableFlat_congr {a b a' b' : JavaType} (ha : a.descriptor = a'.descriptor)
    (hb : b.descriptor = b'.descriptor) : isAssignableFlat a b = isAssignableFlat a' b' := by
  simp only [isAssignableFlat, ha, hb, category_congr ha, category_congr hb,
    binaryName?_congr hb, acceptsArrays_congr hb]

theorem isAssignable_congr {a b a' b' : JavaType} (ha : a.descriptor = a'.descriptor)
    (hb : b.descriptor = b'.descriptor) : isAssignable a b = isAssignable a' b' := by
  obtain ⟨_, _⟩ := a
  obtain ⟨_, _⟩ := b
  cases ha
  cases hb
  rfl

/-! ## What one assignment can be -/

theorem category_of_binaryName? {t : JavaType} {n : BinaryName} (h : t.binaryName? = some n) :
    t.category = .classType := by
  unfold binaryName? at h
  split at h
  · assumption
  · cases h

theorem category_of_acceptsArrays {t : JavaType} (h : t.acceptsArrays = true) :
    t.category = .classType := by
  unfold acceptsArrays at h
  split at h
  · next n hn => exact category_of_binaryName? hn
  · cases h

/-- The class above all classes accepts arrays too. -/
theorem acceptsArrays_of_object {t : JavaType} (h : t.binaryName? = some .object) :
    t.acceptsArrays = true := by
  unfold acceptsArrays
  rw [h]
  decide

/-- The ways in which a type is assignable to another one when arrays are not compared by their
    elements. -/
theorem isAssignableFlat_iff {a b : JavaType} :
    isAssignableFlat a b = true ↔
      a.descriptor = b.descriptor ∨
      (∃ p, a.category = .primitive p ∧ p.widensToInt = true ∧ b.category = .primitive .int) ∨
      (a.category = .classType ∧ b.binaryName? = some .object) ∨
      (a.category = .array ∧ b.acceptsArrays = true) := by
  unfold isAssignableFlat
  rw [Bool.or_eq_true, decide_eq_true_eq]
  refine or_congr Iff.rfl ?_
  constructor
  · intro h
    split at h
    · next p ha hb => exact .inl ⟨p, ha, h, hb⟩
    · next ha _ => exact .inr (.inl ⟨ha, by simpa using h⟩)
    · next ha _ => exact .inr (.inr ⟨ha, h⟩)
    · cases h
  · rintro (⟨p, ha, hp, hb⟩ | ⟨ha, hb⟩ | ⟨ha, hb⟩)
    · rw [ha, hb]
      exact hp
    · rw [ha, category_of_binaryName? hb]
      simpa using hb
    · rw [ha, category_of_acceptsArrays hb]
      exact hb

theorem isAssignable_of_flat {a b : JavaType} (h : isAssignableFlat a b = true) :
    isAssignable a b = true := by
  unfold isAssignable
  rcases isAssignableFlat_iff.mp h with he | ⟨p, ha, _, _⟩ | ⟨ha, _⟩ | ⟨_, hb⟩
  · simp [he]
  · simp [ha, h]
  · simp [ha, h]
  · simp [category_of_acceptsArrays hb, h]

/-- An assignment is flat, or it goes from an array to an array. -/
theorem isAssignable_iff {a b : JavaType} :
    isAssignable a b = true ↔
      isAssignableFlat a b = true ∨
      (a.category = .array ∧ b.category = .array ∧ isAssignableArray a b = true) := by
  constructor
  · intro h
    unfold isAssignable at h
    rw [Bool.or_eq_true, decide_eq_true_eq] at h
    rcases h with he | h
    · exact .inl (isAssignableFlat_iff.mpr (.inl he))
    · split at h
      · next hc => exact .inr ⟨hc.1, hc.2, h⟩
      · exact .inl h
  · rintro (h | ⟨ha, hb, h⟩)
    · exact isAssignable_of_flat h
    · unfold isAssignable
      simp [ha, hb, h]

theorem isAssignable_refl (t : JavaType) : t.isAssignable t = true :=
  isAssignable_of_flat (isAssignableFlat_iff.mpr (.inl rfl))

/-! ## Assignments compose -/

/-- A type that accepts arrays is only assignable to types that accept arrays. -/
theorem acceptsArrays_of_flat {a b : JavaType} (ha : a.acceptsArrays = true)
    (h : isAssignableFlat a b = true) : b.acceptsArrays = true := by
  have hc := category_of_acceptsArrays ha
  rcases isAssignableFlat_iff.mp h with he | ⟨p, hp, _⟩ | ⟨_, ho⟩ | ⟨hr, _⟩
  · rwa [← acceptsArrays_congr he]
  · rw [hc] at hp
    cases hp
  · exact acceptsArrays_of_object ho
  · rw [hc] at hr
    cases hr

theorem isAssignableFlat_trans {a b c : JavaType} (hab : isAssignableFlat a b = true)
    (hbc : isAssignableFlat b c = true) : isAssignableFlat a c = true := by
  rcases isAssignableFlat_iff.mp hab with he | ⟨p, ha, hp, hb⟩ | ⟨ha, hb⟩ | ⟨ha, hb⟩
  · rwa [isAssignableFlat_congr he rfl]
  · rcases isAssignableFlat_iff.mp hbc with he | ⟨q, hq, hw, _⟩ | ⟨hq, _⟩ | ⟨hq, _⟩
    · rwa [← isAssignableFlat_congr rfl he]
    · -- `int` is the end of every widening.
      rw [hb] at hq
      cases hq
      cases hw
    · rw [hb] at hq
      cases hq
    · rw [hb] at hq
      cases hq
  · rcases isAssignableFlat_iff.mp hbc with he | ⟨q, hq, _⟩ | ⟨_, hc⟩ | ⟨hq, _⟩
    · rwa [← isAssignableFlat_congr rfl he]
    · rw [category_of_binaryName? hb] at hq
      cases hq
    · exact isAssignableFlat_iff.mpr (.inr (.inr (.inl ⟨ha, hc⟩)))
    · rw [category_of_binaryName? hb] at hq
      cases hq
  · exact isAssignableFlat_iff.mpr (.inr (.inr (.inr ⟨ha, acceptsArrays_of_flat hb hbc⟩)))

/-- The ways in which an array is assignable to an array with another descriptor. -/
theorem isAssignableArray_iff {a b : JavaType} :
    isAssignableArray a b = true ↔
      (a.dimensions = b.dimensions ∧ a.innermost.isPrimitive = false ∧
        b.innermost.isPrimitive = false ∧ isAssignableFlat a.innermost b.innermost = true) ∨
      (b.dimensions < a.dimensions ∧ b.innermost.acceptsArrays = true) := by
  unfold isAssignableArray
  split
  · next h => simp [h, and_assoc]
  · next h =>
    split
    · next hlt => simp [h, hlt]
    · next hlt => simp [h, hlt]

theorem isAssignableArray_trans {a b c : JavaType} (hab : isAssignableArray a b = true)
    (hbc : isAssignableArray b c = true) : isAssignableArray a c = true := by
  rcases isAssignableArray_iff.mp hab with ⟨hd, ha, _, hf⟩ | ⟨hd, hb⟩
  · rcases isAssignableArray_iff.mp hbc with ⟨hd', _, hc, hf'⟩ | ⟨hd', hc⟩
    · exact isAssignableArray_iff.mpr
        (.inl ⟨hd.trans hd', ha, hc, isAssignableFlat_trans hf hf'⟩)
    · exact isAssignableArray_iff.mpr (.inr ⟨by omega, hc⟩)
  · rcases isAssignableArray_iff.mp hbc with ⟨hd', _, _, hf'⟩ | ⟨hd', hc⟩
    · -- The dimensions that `b` lost are arrays inside of it, which `c` has to accept.
      exact isAssignableArray_iff.mpr (.inr ⟨by omega, acceptsArrays_of_flat hb hf'⟩)
    · exact isAssignableArray_iff.mpr (.inr ⟨by omega, hc⟩)

/-- An array that is assignable to something flatly is assignable to it whatever its elements
    are, unless the two are the same. -/
theorem flat_of_array {a b c : JavaType} (ha : a.category = .array) (hb : b.category = .array)
    (h : isAssignableFlat b c = true) :
    b.descriptor = c.descriptor ∨ isAssignableFlat a c = true := by
  rcases isAssignableFlat_iff.mp h with he | ⟨p, hp, _⟩ | ⟨hp, _⟩ | ⟨_, hc⟩
  · exact .inl he
  · rw [hb] at hp
    cases hp
  · rw [hb] at hp
    cases hp
  · exact .inr (isAssignableFlat_iff.mpr (.inr (.inr (.inr ⟨ha, hc⟩))))

/-- Only an array with the same descriptor is flatly assignable to an array. -/
theorem descriptor_eq_of_flat_array {a b : JavaType} (hb : b.category = .array)
    (h : isAssignableFlat a b = true) : a.descriptor = b.descriptor := by
  rcases isAssignableFlat_iff.mp h with he | ⟨p, _, _, hq⟩ | ⟨_, hq⟩ | ⟨_, hq⟩
  · exact he
  · rw [hb] at hq
    cases hq
  · exact absurd (hb.symm.trans (category_of_binaryName? hq)) (by simp)
  · exact absurd (hb.symm.trans (category_of_acceptsArrays hq)) (by simp)

/-- **Assignments compose.** -/
theorem isAssignable_trans {a b c : JavaType} (hab : a.isAssignable b = true)
    (hbc : b.isAssignable c = true) : a.isAssignable c = true := by
  rcases isAssignable_iff.mp hab with hf | ⟨ha, hb, hr⟩
  · rcases isAssignable_iff.mp hbc with hf' | ⟨hb, _, _⟩
    · exact isAssignable_of_flat (isAssignableFlat_trans hf hf')
    · -- Flatly only the same array is assignable to an array, so the first step is none.
      rwa [isAssignable_congr (descriptor_eq_of_flat_array hb hf) rfl]
  · rcases isAssignable_iff.mp hbc with hf' | ⟨_, hc, hr'⟩
    · rcases flat_of_array ha hb hf' with he | hac
      · rwa [← isAssignable_congr rfl he]
      · exact isAssignable_of_flat hac
    · exact isAssignable_iff.mpr (.inr ⟨ha, hc, isAssignableArray_trans hr hr'⟩)

/-! ## Storage -/

/-- A value keeps its storage class when it is used at a type that it is assignable to. -/
theorem storageClass_of_isAssignable {a b : JavaType} {c : StorageClass}
    (h : a.isAssignable b = true) (hb : StorageClass.ofType b = .ok c) :
    StorageClass.ofType a = .ok c := by
  have congr {x : JavaType} (hx : StorageClass.ofCategory? x.category = some c) :
      StorageClass.ofType x = .ok c := by
    simp [StorageClass.ofType, hx]
  have hb : StorageClass.ofCategory? b.category = some c := by
    unfold StorageClass.ofType at hb
    split at hb
    · next hc => cases hb; exact hc
    · cases hb
  refine congr ?_
  rcases isAssignable_iff.mp h with hf | ⟨ha, hb', _⟩
  · rcases isAssignableFlat_iff.mp hf with he | ⟨p, ha, hp, hb'⟩ | ⟨ha, hb'⟩ | ⟨ha, hb'⟩
    · rwa [category_congr he]
    · rw [hb'] at hb
      rw [ha]
      cases p <;> first | exact hb | cases hp
    · rw [category_of_binaryName? hb'] at hb
      rw [ha]
      exact hb
    · rw [category_of_acceptsArrays hb'] at hb
      rw [ha]
      exact hb
  · rw [hb'] at hb
    rw [ha]
    exact hb

end JavaType
end JvmWeave
