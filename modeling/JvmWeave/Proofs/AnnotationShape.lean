import JvmWeave.Annotation.Build
import JvmWeave.Proofs.Reading
import JvmWeave.Proofs.ValidType

/-!
# The shape of annotations

An annotation that was built from source can be written to a class file, and that is read again.
The members come back in any case, because they stand in the order in which they are kept.  The type
comes back if it is that of a class: class files have no others, and only the erased type.  Source
takes any type, even a primitive one.
-/

set_option autoImplicit false

namespace JvmWeave

/-! ## Ordered lists -/

namespace KeyedList

variable {α : Type} {key : String} {list : List (String × α)}

theorem get?_of_forall_lt (h : ∀ p ∈ list, p.1 < key) : get? list key = none := by
  induction list with
  | nil => rfl
  | cons p list ih =>
    obtain ⟨hp, hlist⟩ := List.forall_mem_cons.mp h
    rw [get?, if_neg (String.ne_of_lt hp), ih hlist]

/-- A key that is greater than all keys of the list comes last. -/
theorem insert_of_forall_lt (value : α) (h : ∀ p ∈ list, p.1 < key) :
    insert key value list = list ++ [(key, value)] := by
  induction list with
  | nil => rfl
  | cons p list ih =>
    obtain ⟨hp, hlist⟩ := List.forall_mem_cons.mp h
    rw [insert, if_neg (String.lt_asymm hp), if_neg (String.ne_of_lt hp), ih hlist,
      List.cons_append]

end KeyedList

namespace Annotation

open KeyedList

/-! ## Members -/

theorem addMember_eq_ok_iff {φ : Type} {a b : Annotation} {name : String}
    {value : AnnotationValue} :
    (a.addMember name value : Except (AnnotationError φ) Annotation) = .ok b ↔
      a.get? name = none ∧ b = a.withMember name value := by
  unfold addMember
  cases a.get? name <;> simp [eq_comm]

/-- Members that come in ascending order are kept as they come. -/
theorem addMembers_of_ordered {type : JavaType} {before after : List (String × AnnotationValue)}
    (h : Ordered (before ++ after)) :
    addMembers ⟨type, before⟩ after = .ok ⟨type, before ++ after⟩ := by
  induction after generalizing before with
  | nil => rw [addMembers, List.append_nil]
  | cons member after ih =>
    obtain ⟨name, value⟩ := member
    have hlast : ∀ p ∈ before, p.1 < name := fun p hp =>
      (List.pairwise_append.mp h).2.2 p hp (name, value) List.mem_cons_self
    have hadd : (addMember ⟨type, before⟩ name value : Except (AnnotationError Empty) Annotation) =
        .ok ⟨type, before ++ [(name, value)]⟩ := by
      rw [addMember_eq_ok_iff, withMember, insert_of_forall_lt value hlast]
      exact ⟨get?_of_forall_lt hlast, rfl⟩
    rw [List.append_cons] at h ⊢
    rw [addMembers, hadd]
    exact ih h

/-! ## Class files -/

/-- What is read where an annotation was written with its type descriptor. -/
theorem ofBinary_descriptor {a : Annotation}
    (hd : IsToken .descriptor a.type.descriptor.toList) (hm : Ordered a.members) :
    ofBinary a.type.descriptor a.members =
      if a.type.category = .classType then .ok ⟨.erased a.type.descriptor, a.members⟩
      else .error (.malformed ⟨.descriptor, a.type.descriptor, 0, .annotationOfOther⟩) := by
  have hadd : (marker (.erased a.type.descriptor)).addMembers a.members =
      .ok ⟨.erased a.type.descriptor, a.members⟩ :=
    addMembers_of_ordered ((List.nil_append a.members).symm ▸ hm)
  unfold ofBinary
  rw [JavaType.ofDescriptor_eq_ok_iff.mpr ⟨hd, rfl⟩]
  dsimp only
  rw [hadd]
  rfl

/-! ## Source -/

section Source

variable {ε φ : Type} {scope : Scope}

theorem markerNamed_eq_ok_iff {name : String} {a : Annotation} :
    (markerNamed scope name : Except (AnnotationError φ) Annotation) = .ok a ↔
      ∃ type, scope.resolve name = .ok type ∧ a = marker type := by
  unfold markerNamed
  cases scope.resolve name <;> simp [eq_comm]

theorem addEvaluated_eq_ok {evaluate : ε → Except (AnnotationError φ) AnnotationValue}
    {pairs : List (String × ε)} {a b : Annotation} (hm : Ordered a.members)
    (h : a.addEvaluated evaluate pairs = .ok b) : b.type = a.type ∧ Ordered b.members := by
  induction pairs generalizing a with
  | nil =>
    cases h
    exact ⟨rfl, hm⟩
  | cons pair pairs ih =>
    obtain ⟨name, expr⟩ := pair
    rw [addEvaluated] at h
    split at h
    · cases h
    · next value _ =>
      split at h
      · next hadd =>
        obtain ⟨-, rfl⟩ := addMember_eq_ok_iff.mp hadd
        obtain ⟨ht, ho⟩ := ih (ordered_insert name value hm) h
        exact ⟨ht, ho⟩
      · cases h

/-- What source gives has the type that some name means, and its members in order. -/
theorem ofSource_eq_ok {expr : AnnotationExpr ε} {evaluator : Evaluator ε φ} {a : Annotation}
    (h : ofSource expr scope evaluator = .ok a) :
    (∃ name, scope.resolve name = .ok a.type) ∧ Ordered a.members := by
  cases expr with
  | marker name =>
    obtain ⟨type, hr, rfl⟩ := markerNamed_eq_ok_iff.mp h
    exact ⟨⟨name, hr⟩, List.Pairwise.nil⟩
  | single name value =>
    obtain ⟨b, hb, h⟩ := bind_eq_ok.mp h
    obtain ⟨v, -, h⟩ := bind_eq_ok.mp h
    obtain ⟨type, hr, rfl⟩ := markerNamed_eq_ok_iff.mp hb
    cases h
    exact ⟨⟨name, hr⟩, ordered_insert _ _ List.Pairwise.nil⟩
  | normal name pairs =>
    obtain ⟨b, hb, h⟩ := bind_eq_ok.mp h
    obtain ⟨type, hr, rfl⟩ := markerNamed_eq_ok_iff.mp hb
    have hm : Ordered (marker type).members := List.Pairwise.nil
    obtain ⟨ht, ho⟩ := addEvaluated_eq_ok hm h
    rw [ht]
    exact ⟨⟨name, hr⟩, ho⟩
  | other kind => cases h

/-- Class files give an annotation from source back exactly if its type is a class without generic
form. -/
theorem ofBinary_of_ofSource_iff {expr : AnnotationExpr ε} {evaluator : Evaluator ε φ}
    {a : Annotation} (h : ofSource expr scope evaluator = .ok a) :
    ofBinary a.type.descriptor a.members = .ok a ↔
      a.type.category = .classType ∧ a.type.signature = none := by
  obtain ⟨⟨name, hr⟩, hm⟩ := ofSource_eq_ok h
  rw [ofBinary_descriptor (Scope.isDescriptor_of_evaluate hr).isToken hm]
  obtain ⟨⟨descriptor, signature⟩, members⟩ := a
  by_cases hc : (⟨descriptor, signature⟩ : JavaType).category = .classType
  · simp [hc, JavaType.erased, eq_comm]
  · simp [hc]

end Source

/-- A scope that imports the annotation of threads. -/
def importingThreads : Scope :=
  ⟨"me", [.ofClass "ui.Thread"], [], fun _ => false, {}⟩

def evaluateInt : Evaluator Int32 Empty := fun n _ => .ok (.int n)

theorem resolve_importingThreads :
    importingThreads.resolve "Thread" = .ok (.erased "Lui/Thread;") := by
  have hplain : PlainName "Thread".toList :=
    ⟨by decide, Text.notBlank_of_all (by decide), by decide, by decide, by decide, by decide⟩
  refine (Scope.resolve_of_plain hplain rfl).trans ?_
  decide

theorem ofSource_thread :
    ofSource (.single "Thread" 5) importingThreads evaluateInt =
      .ok ⟨.erased "Lui/Thread;", [("value", .int 5)]⟩ := by
  unfold ofSource
  dsimp only
  rw [markerNamed_eq_ok_iff.mpr ⟨_, resolve_importingThreads, rfl⟩]
  rfl

/-- `@Thread(5)` is the same from source and from a class file. -/
theorem ofBinary_of_ofSource_thread :
    ∃ a, ofSource (.single "Thread" 5) importingThreads evaluateInt = .ok a ∧
      ofBinary a.type.descriptor a.members = .ok a := by
  refine ⟨_, ofSource_thread, ?_⟩
  apply (ofBinary_of_ofSource_iff ofSource_thread).mpr
  exact ⟨by decide, rfl⟩

/-- `@int` is an annotation in source, and none in class files. -/
theorem ofSource_int :
    ofSource (.marker "int") importingThreads evaluateInt = .ok (marker (.primitive .int)) ∧
      ofBinary (JavaType.primitive .int).descriptor [] =
        .error (.malformed ⟨.descriptor, "I", 0, .annotationOfOther⟩) := by
  constructor
  · have hr : importingThreads.resolve "int" = .ok (.primitive .int) :=
      Scope.typeOf_keyword (by decide) (by decide)
    exact markerNamed_eq_ok_iff.mpr ⟨_, hr, rfl⟩
  · rfl

end Annotation
end JvmWeave
