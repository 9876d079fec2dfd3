import JvmWeave.Proofs.Insertion
import JvmWeave.Proofs.ParallelMove

/-!
# Edited fragments stay substitutable

A fragment that is edited again and again is still used where the first one was: it is fed the
values that were fed to the first, and what it gives is used as what the first gave.  One insertion
changes the flow of values in one of two ways.  Either the flow is that of the target, or, in place
of a target with all values in the same places, it is that of the replacement.  In the second case
inputs vary one way and outputs the other, so that a history of insertions needs assignability to
be transitive and nothing else.
-/

set_option autoImplicit false

namespace JvmWeave

open MovePlan

/-- The same place, where the stack counts as one. -/
def Location.SamePlace (a b : Location) : Prop :=
  a = b ∨ (a.isStack = true ∧ b.isStack = true)

theorem Location.SamePlace.trans {a b c : Location} (hab : a.SamePlace b) (hbc : b.SamePlace c) :
    a.SamePlace c := by
  rcases hab with rfl | ⟨ha, hb⟩
  · exact hbc
  · rcases hbc with rfl | ⟨-, hc⟩
    · exact .inr ⟨ha, hb⟩
    · exact .inr ⟨ha, hc⟩

/-- The value can be taken, where it is, for the other one. -/
structure FlowValue.Fits (given wanted : FlowValue) : Prop where
  assignable : given.type.isAssignable wanted.type = true
  samePlace : given.location.SamePlace wanted.location

namespace FlowValue.Fits

theorem refl (v : FlowValue) : v.Fits v :=
  ⟨JavaType.isAssignable_refl v.type, .inl rfl⟩

theorem trans {u v w : FlowValue} (huv : u.Fits v) (hvw : v.Fits w) : u.Fits w :=
  ⟨JavaType.isAssignable_trans huv.assignable hvw.assignable,
    huv.samePlace.trans hvw.samePlace⟩

instance : Std.Refl FlowValue.Fits :=
  ⟨refl⟩

instance : IsTrans FlowValue FlowValue.Fits :=
  ⟨fun _ _ _ => trans⟩

end FlowValue.Fits

/-- The inputs of the other flow can be passed, and the outputs used as its outputs. -/
structure Flow.ReplacesFor (flow original : Flow) : Prop where
  inputs : List.Forall₂ FlowValue.Fits original.inputs flow.inputs
  outputs : List.Forall₂ FlowValue.Fits flow.outputs original.outputs

namespace Flow.ReplacesFor

theorem refl (flow : Flow) : flow.ReplacesFor flow :=
  ⟨List.forall₂_refl _, List.forall₂_refl _⟩

theorem trans {a b c : Flow} (hab : a.ReplacesFor b) (hbc : b.ReplacesFor c) : a.ReplacesFor c :=
  ⟨forall₂_trans hbc.inputs hab.inputs, forall₂_trans hab.outputs hbc.outputs⟩

end Flow.ReplacesFor

/-! ## What moves nothing -/

theorem FlowValue.samePlace_of_route {source target : FlowValue}
    (hb : source.routeTo target ≠ .blocked)
    (hm : ∀ a b, source.routeTo target ≠ .popInto a ∧ source.routeTo target ≠ .carry a b)
    (hp : ∀ slot, source.routeTo target ≠ .push slot) :
    source.location.SamePlace target.location := by
  have hj := source.joins_routeTo target
  cases hr : source.routeTo target with
  | keep =>
    rw [hr] at hj
    obtain ⟨⟨i, hs⟩, j, ht⟩ := hj
    exact .inr ⟨hs ▸ rfl, ht ▸ rfl⟩
  | popInto a => exact ((hm a a).1 hr).elim
  | rest a =>
    rw [hr] at hj
    exact .inl (hj.1.trans hj.2.symm)
  | carry a b => exact ((hm a b).2 hr).elim
  | push a => exact (hp a hr).elim
  | fixed =>
    rw [hr] at hj
    exact .inl hj.1
  | blocked => exact (hb hr).elim

/-- Where no code is needed to move the values, each of them is in the place where it has to be. -/
theorem samePlace_of_moveValues {source target : List FlowValue}
    (h : moveValues source target = .ok none) :
    ∀ p ∈ source.zip target, p.1.location.SamePlace p.2.location := by
  obtain ⟨is, hi, hcode⟩ := moveValues_eq_ok_iff.mp h
  split at hcode
  · next hnil =>
    subst hnil
    obtain ⟨plan, loads, hp, -, hl, hi⟩ := moveInstructions_eq_ok_iff.mp hi
    obtain ⟨hs, hsl, rfl⟩ := empty_of_instructions hi
    exact fun p hm => FlowValue.samePlace_of_route (unblocked_of_ofPairs hp p hm)
      (stays_of_ofPairs hp hs hsl p hm) (unpushed_of_stackLoads hl p hm)
  · cases hcode

/-- Values that can be used and need no code to be moved can be taken where they are. -/
theorem fits_of_moveValues {source target : List FlowValue}
    (ha : List.Forall₂ FlowValue.Assignable source target)
    (h : moveValues source target = .ok none) : List.Forall₂ FlowValue.Fits source target := by
  obtain ⟨hlen, ha⟩ := List.forall₂_iff_zip.mp ha
  have hp := samePlace_of_moveValues h
  exact List.forall₂_iff_zip.mpr ⟨hlen, fun hm => ⟨ha hm, hp _ hm⟩⟩

/-! ## One insertion -/

namespace Fragment

theorem flow_wrap (target : Fragment) (before after : List Fragment) :
    (target.wrap before after).flow = target.flow := by
  cases target <;> rfl

theorem flow_insertBefore {target inserted f : Fragment} {options : InsertOptions}
    (h : target.insertBefore inserted options = .ok f) (hd : options.discardOutputs = true) :
    f.flow = target.flow := by
  unfold insertBefore at h
  simp only [hd, if_true] at h
  split at h
  · cases h
  · split at h
    · cases h
    · cases h
      exact flow_wrap _ _ _

theorem flow_insertAfter {target inserted f : Fragment} {options : InsertOptions}
    (h : target.insertAfter inserted options = .ok f) : f.flow = target.flow := by
  unfold insertAfter at h
  dsimp only at h
  split at h
  · cases h
  · split at h
    · cases h
    · split at h
      · cases h
      · cases h
        exact flow_wrap _ _ _

/-- In place of a target, either the flow stays, or all values are where they were. -/
theorem replacesFor_overwrite {target replacement f : Fragment} {options : InsertOptions}
    (h : target.overwrite replacement options = .ok f) : f.flow.ReplacesFor target.flow := by
  obtain ⟨ha, hr⟩ := overwrite_eq_ok_iff.mp h
  cases hr with
  | bare hin hout =>
    -- The replacement itself is the result, as no code is needed on either side of it.
    exact ⟨fits_of_moveValues ha.inputs hin, fits_of_moveValues ha.outputs hout⟩
  | bound => exact .refl _

theorem replacesFor_insert {target inserted f : Fragment} {position : Position}
    {options : InsertOptions} (h : target.insert inserted position options = .ok f)
    (hd : position = .before → options.discardOutputs = true) :
    f.flow.ReplacesFor target.flow := by
  cases position with
  | before => exact flow_insertBefore h (hd rfl) ▸ .refl _
  | overwrite => exact replacesFor_overwrite h
  | after => exact flow_insertAfter h ▸ .refl _

end Fragment

/-! ## Any number of insertions -/

/-- A fragment to insert, and how. -/
structure Insertion where
  fragment : Fragment
  position : Position
  options : InsertOptions

/-- What the inserted fragment leaves on the stack is not handed on. -/
def Insertion.Discards (e : Insertion) : Prop :=
  e.position = .before → e.options.discardOutputs = true

namespace Fragment

/-- The target after several insertions, the first one first. -/
def insertAll (target : Fragment) : List Insertion → Except InsertError Fragment
  | [] => .ok target
  | e :: es =>
    match target.insert e.fragment e.position e.options with
    | .ok f => f.insertAll es
    | .error cause => .error cause

/-- Whatever is inserted how often, the result can be used in place of the first target. -/
theorem replacesFor_insertAll {target f : Fragment} {edits : List Insertion}
    (h : target.insertAll edits = .ok f) (hd : ∀ e ∈ edits, e.Discards) :
    f.flow.ReplacesFor target.flow := by
  induction edits generalizing target with
  | nil =>
    cases h
    exact .refl _
  | cons e es ih =>
    obtain ⟨he, hes⟩ := List.forall_mem_cons.mp hd
    rw [insertAll] at h
    split at h
    · next g hg => exact (ih h hes).trans (replacesFor_insert hg he)
    · cases h

/-- A replacement with its own values, one that needs code around it, and code before both. -/
theorem replacesFor_three_insertions :
    ∃ edits f, (∀ e ∈ edits, e.Discards) ∧
      edits.map Insertion.position = [.overwrite, .overwrite, .before] ∧
      (run [] [⟨.string, .stack 0, none⟩] [⟨.object, .localSlot 1, none⟩]).insertAll edits =
        .ok f ∧
      f.flow = ⟨[⟨.object, .stack 0, none⟩], [⟨.string, .localSlot 1, none⟩]⟩ ∧
      f.flow.ReplacesFor
        (run [] [⟨.string, .stack 0, none⟩] [⟨.object, .localSlot 1, none⟩]).flow := by
  have hd : ∀ e ∈ [
      Insertion.mk (run [] [⟨.object, .stack 0, none⟩] [⟨.string, .localSlot 1, none⟩])
        .overwrite {},
      ⟨run [] [⟨.object, .localSlot 2, none⟩] [⟨.string, .stack 0, none⟩], .overwrite, {}⟩,
      ⟨run [.pushNull] [] [⟨.object, .stack 0, none⟩], .before, {}⟩], e.Discards := by
    intro e he hb
    simp only [List.mem_cons, List.not_mem_nil, or_false] at he
    rcases he with rfl | rfl | rfl <;> rfl
  exact ⟨_, _, hd, rfl, rfl, rfl, replacesFor_insertAll rfl hd⟩

end Fragment
end JvmWeave
