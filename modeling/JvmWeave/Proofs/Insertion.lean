import Mathlib.Data.List.Forall2
import JvmWeave.Fragment.Insert

/-!
# What an insertion has done

Insertions check a number of things one after another and then build a fragment.  Here each of them
is turned into a description of the fragment that it has built, with all that was checked on the way
(`overwrite_eq_ok_iff`, `insertBefore_eq_ok_iff`).  Proofs about insertions start from these and do
not open the insertions again.
-/

set_option autoImplicit false

namespace JvmWeave

/-- The value can be used where the other one is expected. -/
def FlowValue.Assignable (given wanted : FlowValue) : Prop :=
  given.type.isAssignable wanted.type = true

instance (given wanted : FlowValue) : Decidable (given.Assignable wanted) :=
  inferInstanceAs (Decidable (_ = true))

theorem forall₂_trans {α : Type} {R : α → α → Prop} [IsTrans α R] {as bs cs : List α}
    (hab : List.Forall₂ R as bs) (hbc : List.Forall₂ R bs cs) : List.Forall₂ R as cs := by
  induction hab generalizing cs with
  | nil => exact hbc
  | cons h _ ih =>
    cases hbc with
    | cons h' hbc => exact .cons (IsTrans.trans _ _ _ h h') (ih hbc)

namespace Fragment

/-! ## Around a target -/

/-- The fragments that run one after another when the fragment runs. -/
def parts : Fragment → List Fragment
  | leaf action flow => [leaf action flow]
  | body children _ => children

theorem wrap_eq (target : Fragment) (before after : List Fragment) :
    target.wrap before after = body (before ++ target.parts ++ after) target.flow := by
  cases target <;> rfl

theorem inputs_withOutputs (f : Fragment) (outputs : List FlowValue) :
    (f.withOutputs outputs).inputs = f.inputs := by
  cases f <;> rfl

theorem outputs_withOutputs (f : Fragment) (outputs : List FlowValue) :
    (f.withOutputs outputs).outputs = outputs := by
  cases f <;> rfl

theorem inputs_convertReturns (f : Fragment) : f.convertReturns.inputs = f.inputs := by
  cases f with
  | leaf action flow => cases action <;> rfl
  | body children flow => rfl

theorem inputs_yieldReturns (f : Fragment) : f.yieldReturns.inputs = f.inputs := by
  unfold yieldReturns
  dsimp only
  split
  · split
    · rw [inputs_withOutputs, inputs_convertReturns]
    · exact inputs_convertReturns f
  · exact inputs_convertReturns f

theorem inputs_prepared (options : InsertOptions) (f : Fragment) :
    (f.prepared options).inputs = f.inputs := by
  unfold prepared
  split
  · rfl
  · exact inputs_yieldReturns f

/-- Where outputs are kept, one fragment is put before the parts of the target, and its outputs
    before those of the target. -/
theorem insertBefore_eq_ok_iff {target inserted f : Fragment} {options : InsertOptions}
    (hd : options.discardOutputs = false) :
    target.insertBefore inserted options = .ok f ↔
      inserted.inputs = [] ∧ f = body (inserted.prepared options :: target.parts)
        ⟨target.inputs, (inserted.prepared options).outputs ++ target.outputs⟩ := by
  unfold insertBefore
  by_cases hi : inserted.inputs = []
  · simp only [hi, ne_eq, not_true_eq_false, if_false, hd, Bool.false_eq_true, true_and]
    rw [wrap_eq, List.append_nil, Except.ok.injEq]
    exact eq_comm
  · simp [hi]

/-! ## In place of a target -/

theorem mismatch?_eq_none_iff {index : Nat} {givens wanteds : List FlowValue} :
    mismatch? index givens wanteds = none ↔
      ∀ p ∈ givens.zip wanteds, p.1.Assignable p.2 := by
  induction givens generalizing index wanteds with
  | nil => simp [mismatch?]
  | cons given givens ih =>
    cases wanteds with
    | nil => simp [mismatch?]
    | cons wanted wanteds =>
      rw [mismatch?, List.zip_cons_cons, List.forall_mem_cons, ← @ih (index + 1)]
      by_cases ha : given.type.isAssignable wanted.type = true
      · simp [FlowValue.Assignable, ha]
      · simp [FlowValue.Assignable, ha]

/-- The replacement takes what the target takes, gives what it gives, and goes on if it does. -/
structure Accepts (target replacement : Fragment) : Prop where
  inputs : List.Forall₂ FlowValue.Assignable target.inputs replacement.inputs
  outputs : List.Forall₂ FlowValue.Assignable replacement.outputs target.outputs
  goesOn : target.outcome.fallsThrough = true → replacement.outcome.fallsThrough = true

theorem conflict?_eq_none_iff {target replacement : Fragment} :
    conflict? target replacement = none ↔ target.Accepts replacement := by
  unfold conflict?
  constructor
  · intro h
    split at h
    · cases h
    · next hin =>
      split at h
      · cases h
      · next hout =>
        split at h
        · cases h
        · next hmin =>
          split at h
          · cases h
          · next hmout =>
            split at h
            · cases h
            · next hs =>
              refine ⟨List.forall₂_iff_zip.mpr ⟨not_not.mp hin, fun hm => ?_⟩,
                List.forall₂_iff_zip.mpr ⟨(not_not.mp hout).symm, fun hm => ?_⟩, fun ht => ?_⟩
              · exact mismatch?_eq_none_iff.mp hmin _ hm
              · exact mismatch?_eq_none_iff.mp hmout _ hm
              · simpa [ht] using hs
  · rintro ⟨hin, hout, hs⟩
    obtain ⟨hlin, hain⟩ := List.forall₂_iff_zip.mp hin
    obtain ⟨hlout, haout⟩ := List.forall₂_iff_zip.mp hout
    have hmin : mismatch? 0 target.inputs replacement.inputs = none :=
      mismatch?_eq_none_iff.mpr fun p hp => hain hp
    have hmout : mismatch? 0 replacement.outputs target.outputs = none :=
      mismatch?_eq_none_iff.mpr fun p hp => haout hp
    rw [if_neg (not_not.mpr hlin), if_neg (not_not.mpr hlout.symm), hmin, hmout]
    dsimp only
    rw [if_neg]
    rintro ⟨ht, hr⟩
    rw [hs ht] at hr
    cases hr

/-- The fragment as it is inserted in place of a target. -/
def asReplacement (options : InsertOptions) (f : Fragment) : Fragment :=
  if options.returnsToOutputs then f.yieldReturns else f

/-- What takes the place of the target: the replacement alone, where all values are in their places,
    or else a body of it and of the code that moves them. -/
inductive Replaces (target replacement : Fragment) : Fragment → Prop
  | bare (hin : moveValues target.inputs replacement.inputs = .ok none)
      (hout : moveValues replacement.outputs target.outputs = .ok none) :
      Replaces target replacement replacement
  | bound {bindInputs bindOutputs : Option Fragment}
      (hin : moveValues target.inputs replacement.inputs = .ok bindInputs)
      (hout : moveValues replacement.outputs target.outputs = .ok bindOutputs)
      (hmoves : bindInputs.isSome = true ∨ bindOutputs.isSome = true) :
      Replaces target replacement
        (body (bindInputs.toList ++ [replacement] ++ bindOutputs.toList) target.flow)

theorem Replaces.exists_moves {target replacement f : Fragment}
    (h : target.Replaces replacement f) :
    ∃ bindInputs bindOutputs, moveValues target.inputs replacement.inputs = .ok bindInputs ∧
      moveValues replacement.outputs target.outputs = .ok bindOutputs := by
  cases h with
  | bare hin hout => exact ⟨_, _, hin, hout⟩
  | bound hin hout => exact ⟨_, _, hin, hout⟩

theorem Replaces.exists_of_moves {target replacement : Fragment}
    {bindInputs bindOutputs : Option Fragment}
    (hin : moveValues target.inputs replacement.inputs = .ok bindInputs)
    (hout : moveValues replacement.outputs target.outputs = .ok bindOutputs) :
    ∃ f, target.Replaces replacement f := by
  cases bindInputs with
  | some f => exact ⟨_, .bound hin hout (.inl rfl)⟩
  | none =>
    cases bindOutputs with
    | some f => exact ⟨_, .bound hin hout (.inr rfl)⟩
    | none => exact ⟨_, .bare hin hout⟩

theorem overwrite_eq_ok_iff {target replacement f : Fragment} {options : InsertOptions} :
    target.overwrite replacement options = .ok f ↔
      target.Accepts (replacement.asReplacement options) ∧
        target.Replaces (replacement.asReplacement options) f := by
  unfold overwrite
  dsimp only
  rw [← asReplacement, ← conflict?_eq_none_iff]
  generalize replacement.asReplacement options = replacement
  constructor
  · intro h
    split at h
    · cases h
    · next hc =>
      split at h
      · cases h
      · next bindInputs hin =>
        split at h
        · cases h
        · next bindOutputs hout =>
          refine ⟨hc, ?_⟩
          split at h
          · cases h
            exact .bare hin hout
          · next hm =>
            cases h
            refine .bound hin hout ?_
            cases bindInputs with
            | some f => exact .inl rfl
            | none =>
              cases bindOutputs with
              | some f => exact .inr rfl
              | none => exact (hm rfl rfl).elim
  · rintro ⟨hc, hr⟩
    rw [hc]
    cases hr with
    | bare hin hout => rw [hin, hout]
    | @bound bindInputs bindOutputs hin hout hm =>
      rw [hin, hout]
      cases bindInputs <;> cases bindOutputs <;> simp_all

end Fragment
end JvmWeave
