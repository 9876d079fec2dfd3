import JvmWeave.Proofs.Exits
import JvmWeave.Proofs.KeptOutputs

/-!
# Code added beside a target

A fragment that is inserted before or after a target brings its own leaves and, behind them, one run
of instructions that takes from the stack what it has left there.  Nothing else changes: the values
of the target stay, its leaves stay in their order, and control leaves the whole as it leaves the two
one after the other (`insert_adds_code`).  Whether the insertion is possible is decided by the inputs
of the fragment, by the types of what it leaves on the stack, and behind a target by the target.

The instructions that drop values are listed the last one first here, so that they stand beside the
values that they drop.
-/

set_option autoImplicit false

namespace JvmWeave

open MachineState

/-! ## Dropping values -/

/-- The instruction drops a value of the type that the flow gives. -/
def FlowValue.DroppedBy (v : FlowValue) (i : Instruction) : Prop :=
  ∃ family, StorageClass.ofType v.type = .ok family ∧
    i = if family.width = 2 then .popWide else .pop

theorem Instruction.popOf_eq_ok_iff {v : FlowValue} {i : Instruction} :
    Instruction.popOf v.type = .ok i ↔ v.DroppedBy i := by
  unfold popOf FlowValue.DroppedBy
  cases StorageClass.ofType v.type with
  | error e => simp [Except.map]
  | ok family => simp [Except.map, eq_comm]

theorem FlowValue.DroppedBy.outcome_eq {v : FlowValue} {i : Instruction} (h : v.DroppedBy i) :
    i.outcome = .onward := by
  obtain ⟨family, -, rfl⟩ := h
  split <;> rfl

theorem FlowValue.DroppedBy.step_eq {v : FlowValue} {i : Instruction} {x : MachineValue}
    (h : v.DroppedBy i) (hx : v.Admits x) (stack : List MachineValue)
    (locals : Nat → Option SlotPart) : step i ⟨x :: stack, locals⟩ = some ⟨stack, locals⟩ := by
  obtain ⟨family, hf, rfl⟩ := h
  have hw : x.width = family.width := congrArg StorageClass.width (hx family hf)
  split
  · next hwide => exact if_pos (hw.trans hwide)
  · next hnarrow =>
    have hone : x.width = 1 := by
      rw [hw]
      cases family <;> first | rfl | exact absurd rfl hnarrow
    exact if_pos hone

/-- Code that drops values goes on. -/
theorem sequence_outcome_of_droppedBy {vs : List FlowValue} {is : List Instruction}
    (h : List.Forall₂ FlowValue.DroppedBy vs is) :
    Outcome.sequence (is.reverse.map Instruction.outcome) = .onward := by
  induction h with
  | nil => rfl
  | cons hv _ ih =>
    rw [List.reverse_cons, List.map_append, Outcome.sequence_append, ih]
    simp [hv.outcome_eq]

/-- Instructions that drop values one by one, the last value first, take all of them from the top of
    the stack. -/
theorem runAll_of_droppedBy {vs : List FlowValue} {is : List Instruction} {xs : List MachineValue}
    (h : List.Forall₂ FlowValue.DroppedBy vs is) (hx : List.Forall₂ FlowValue.Admits vs xs)
    (stack : List MachineValue) (locals : Nat → Option SlotPart) :
    runAll is.reverse ⟨xs.reverse ++ stack, locals⟩ = some ⟨stack, locals⟩ := by
  induction h generalizing xs stack with
  | nil =>
    cases hx
    rfl
  | cons hv _ ih =>
    cases hx with
    | @cons _ x _ xs hvx hx =>
      -- All but the first value lie above it, and go first.
      have hrest := ih hx (x :: stack)
      rw [List.reverse_cons, List.reverse_cons, List.append_assoc, List.singleton_append,
        runAll_append_of_eq_some hrest, runAll, hv.step_eq hvx]
      rfl

namespace Fragment

theorem popAll_eq_ok_iff {vs : List FlowValue} {is : List Instruction} :
    popAll vs = .ok is ↔ List.Forall₂ FlowValue.DroppedBy vs is.reverse := by
  induction vs generalizing is with
  | nil =>
    rw [popAll, List.forall₂_nil_left_iff, List.reverse_eq_nil_iff, Except.ok.injEq]
    exact eq_comm
  | cons v vs ih =>
    rw [popAll]
    constructor
    · intro h
      split at h
      · cases h
      · next pops hp =>
        cases hi : Instruction.popOf v.type with
        | error e =>
          rw [hi] at h
          cases h
        | ok i =>
          rw [hi] at h
          cases h
          rw [List.reverse_append]
          exact .cons (Instruction.popOf_eq_ok_iff.mp hi) (ih.mp hp)
    · intro h
      cases hr : is.reverse with
      | nil =>
        rw [hr] at h
        cases h
      | cons i pops =>
        rw [hr] at h
        obtain ⟨hi, hpops⟩ := List.forall₂_cons.mp h
        have his : is = pops.reverse ++ [i] := by
          rw [← List.reverse_reverse is, hr, List.reverse_cons]
        rw [ih.mpr (by rwa [List.reverse_reverse]), Instruction.popOf_eq_ok_iff.mpr hi, his]
        rfl

theorem exists_popAll_iff {vs : List FlowValue} :
    (∃ is, popAll vs = .ok is) ↔ ∀ v ∈ vs, v.type.IsStorable := by
  simp only [popAll_eq_ok_iff]
  induction vs with
  | nil => exact iff_of_true ⟨[], .nil⟩ (List.forall_mem_nil _)
  | cons v vs ih =>
    rw [List.forall_mem_cons, ← ih]
    constructor
    · rintro ⟨is, h⟩
      cases hr : is.reverse with
      | nil =>
        rw [hr] at h
        cases h
      | cons i pops =>
        rw [hr] at h
        obtain ⟨⟨family, hf, -⟩, hpops⟩ := List.forall₂_cons.mp h
        exact ⟨⟨family, hf⟩, pops.reverse, by rwa [List.reverse_reverse]⟩
    · rintro ⟨⟨family, hf⟩, is, h⟩
      refine ⟨is ++ [if family.width = 2 then .popWide else .pop], ?_⟩
      rw [List.reverse_append]
      exact .cons ⟨family, hf, rfl⟩ h

/-- The code behind a fragment that leaves the values on the stack.  There is none if it leaves
    nothing, and else it has one instruction for each value, the last one first, and takes exactly
    these values from the top of the stack. -/
inductive Drops (left : List FlowValue) : Option Fragment → Prop
  | nothing (h : left = []) : Drops left none
  | pops {is : List Instruction} (h : left ≠ [])
      (hdrop : List.Forall₂ FlowValue.DroppedBy left is.reverse)
      (hrun : ∀ xs, List.Forall₂ FlowValue.Admits left xs → ∀ stack locals,
        runAll is ⟨xs.reverse ++ stack, locals⟩ = some ⟨stack, locals⟩) :
      Drops left (some (run is left []))

theorem drops_iff {f : Fragment} {code : Option Fragment} :
    f.discard? = .ok code ↔ Drops (stackValues f.outputs) code := by
  unfold discard? stackValues
  dsimp only
  generalize f.outputs.filter (fun v => v.location.isStack) = left
  constructor
  · intro h
    split at h
    · next hnil =>
      cases h
      exact .nothing hnil
    · next hne =>
      cases hp : popAll left with
      | error e =>
        rw [hp] at h
        cases h
      | ok is =>
        rw [hp] at h
        cases h
        have hdrop := popAll_eq_ok_iff.mp hp
        refine .pops hne hdrop fun xs hx stack locals => ?_
        rw [← List.reverse_reverse is]
        exact runAll_of_droppedBy hdrop hx stack locals
  · intro h
    cases h with
    | nothing hnil => exact if_pos hnil
    | pops hne hdrop => rw [if_neg hne, popAll_eq_ok_iff.mpr hdrop]; rfl

theorem exists_drops_iff {f : Fragment} :
    (∃ code, Drops (stackValues f.outputs) code) ↔
      ∀ v ∈ stackValues f.outputs, v.type.IsStorable := by
  rw [← exists_popAll_iff]
  constructor
  · rintro ⟨code, h⟩
    cases h with
    | nothing hnil => exact ⟨[], by rw [hnil]; rfl⟩
    | pops _ hdrop => exact ⟨_, popAll_eq_ok_iff.mpr hdrop⟩
  · rintro ⟨is, hp⟩
    by_cases hnil : stackValues f.outputs = []
    · exact ⟨none, .nothing hnil⟩
    · have hcode : f.discard? = .ok (some (run is (stackValues f.outputs) [])) := by
        unfold stackValues at hp hnil
        unfold discard? stackValues
        dsimp only
        rw [if_neg hnil, hp]
        rfl
      exact ⟨_, drops_iff.mp hcode⟩

theorem Drops.sequence_eq {left : List FlowValue} {code : Option Fragment}
    (h : Drops left code) : Outcome.sequence (code.toList.map outcome) = .onward := by
  cases h with
  | nothing => rfl
  | @pops is _ hdrop =>
    have hrun := sequence_outcome_of_droppedBy hdrop
    rw [List.reverse_reverse] at hrun
    simp [run, outcome, Action.outcome, hrun]

/-- It is a leaf, if there is any. -/
theorem Drops.leavesInOrder_eq {left : List FlowValue} {code : Option Fragment}
    (h : Drops left code) : leavesInOrder code.toList = code.toList := by
  cases h with
  | nothing => rfl
  | pops => rfl

end Fragment

/-! ## Before and after -/

/-- What is added at a position and what is there already, in the order in which they run. -/
def Position.inOrder {α : Type} (added present : List α) : Position → List α
  | before => added ++ present
  | overwrite => added
  | after => present ++ added

namespace Fragment

theorem leavesInOrder_inOrder (position : Position) (added present : List Fragment) :
    leavesInOrder (position.inOrder added present) =
      position.inOrder (leavesInOrder added) (leavesInOrder present) := by
  cases position <;> simp [Position.inOrder]

theorem leavesInOrder_parts (f : Fragment) : leavesInOrder f.parts = f.leaves := by
  cases f <;> simp [parts, leaves, leavesInOrder]

/-- What an insertion beside a target checks, and what it builds. -/
theorem insert_beside_eq_ok_iff {target inserted f : Fragment} {position : Position}
    {options : InsertOptions} (hp : position ≠ .overwrite)
    (hd : position = .before → options.discardOutputs = true) :
    target.insert inserted position options = .ok f ↔
      inserted.inputs = [] ∧ (position = .after → target.outcome.fallsThrough = true) ∧
        ∃ pops, Drops (stackValues (inserted.prepared options).outputs) pops ∧
          f = body (position.inOrder (inserted.prepared options :: pops.toList) target.parts)
            target.flow := by
  simp only [← drops_iff]
  cases position with
  | overwrite => exact absurd rfl hp
  | before =>
    simp only [insert, insertBefore, hd rfl, if_true, wrap_eq, Position.inOrder]
    by_cases hi : inserted.inputs = []
    · simp only [hi, ne_eq, not_true_eq_false, if_false, reduceCtorEq, false_imp_iff, true_and]
      cases (inserted.prepared options).discard? <;> simp [eq_comm]
    · simp [hi]
  | after =>
    simp only [insert, insertAfter, wrap_eq, Position.inOrder]
    by_cases ht : target.outcome.fallsThrough = true
    · by_cases hi : inserted.inputs = []
      · simp only [ht, hi, ne_eq, not_true_eq_false, if_false, Bool.true_eq_false, forall_const,
          true_and]
        cases (inserted.prepared options).discard? <;> simp [eq_comm]
      · simp [ht, hi]
    · simp [ht]

/-- An insertion beside a target succeeds exactly if the fragment takes nothing, what it leaves on
    the stack can be dropped, and what is put behind the target is reached.  Then the values of the
    target stay, its leaves are those of the target, of the fragment and of the code that drops what
    the fragment leaves, and the outcome is that of the fragment and the target in order.  Otherwise
    the target stays. -/
theorem insert_adds_code {target inserted : Fragment} {position : Position}
    {options : InsertOptions} (hp : position ≠ .overwrite)
    (hd : position = .before → options.discardOutputs = true) :
    ((∃ f, target.insert inserted position options = .ok f) ↔
      inserted.inputs = [] ∧
        (∀ v ∈ stackValues (inserted.prepared options).outputs, v.type.IsStorable) ∧
        (position = .after → target.outcome.fallsThrough = true)) ∧
    (∀ e, target.insert inserted position options = .error e →
      insertion inserted position options () target = ⟨(), target, some e⟩) ∧
    ∀ f, target.insert inserted position options = .ok f →
      insertion inserted position options () target = ⟨(), f, none⟩ ∧
      f.flow = target.flow ∧
      (∃ pops, Drops (stackValues (inserted.prepared options).outputs) pops ∧
        f.leaves =
          position.inOrder ((inserted.prepared options).leaves ++ pops.toList) target.leaves) ∧
      f.outcome = .sequence
        (position.inOrder [(inserted.prepared options).outcome] [target.outcome]) := by
  refine ⟨?_, ?_, ?_⟩
  · simp only [insert_beside_eq_ok_iff hp hd, ← exists_drops_iff]
    constructor
    · rintro ⟨f, hi, ht, pops, hpops, -⟩
      exact ⟨hi, ⟨pops, hpops⟩, ht⟩
    · rintro ⟨hi, ⟨pops, hpops⟩, ht⟩
      exact ⟨_, hi, ht, pops, hpops, rfl⟩
  · intro e h
    unfold insertion
    rw [h]
  · intro f h
    obtain ⟨-, -, pops, hpops, hf⟩ := (insert_beside_eq_ok_iff hp hd).mp h
    have hleaves : f.leaves =
        position.inOrder ((inserted.prepared options).leaves ++ pops.toList) target.leaves := by
      rw [hf, leaves, leavesInOrder_inOrder, leavesInOrder_parts, leavesInOrder,
        hpops.leavesInOrder_eq]
    refine ⟨?_, ?_, ⟨pops, hpops, hleaves⟩, ?_⟩
    · unfold insertion
      rw [h]
    · rw [hf]
      rfl
    · -- The outcome is that of the leaves, and the code that drops values goes on.
      rw [outcome_eq_sequence_leaves f, hleaves]
      cases position <;>
        simp [Position.inOrder, Outcome.sequence_append, hpops.sequence_eq,
          ← outcome_eq_sequence_leaves]

/-- A `long` and an `int` are left on the stack. -/
def twoConstants : Fragment :=
  run [.longConst ⟨1, by decide⟩, .intConst ⟨3, by decide⟩] []
    [⟨.primitive .long, .stack 0, none⟩, ⟨.primitive .int, .stack 1, none⟩]

/-- The `int` is on top, and goes first. -/
theorem insert_adds_twoConstants :
    ∃ f, (body [body [counterCall] ⟨[], []⟩] ⟨[], []⟩).insert twoConstants .after {} = .ok f ∧
      f.flow = ⟨[], []⟩ ∧
      f.leaves =
        [counterCall, twoConstants, run [.pop, .popWide] (stackValues twoConstants.outputs) []] ∧
      f.outcome = .sequence [counterCall.outcome, .onward] := by
  have hstorable : ∀ v ∈ stackValues twoConstants.outputs, v.type.IsStorable := by
    intro v hv
    rcases List.mem_pair.mp hv with rfl | rfl
    · exact ⟨.long, rfl⟩
    · exact ⟨.int, rfl⟩
  obtain ⟨hok, -, hadds⟩ :=
    @insert_adds_code (body [body [counterCall] ⟨[], []⟩] ⟨[], []⟩) twoConstants .after {} nofun
      nofun
  obtain ⟨f, hf⟩ := hok.mpr ⟨rfl, hstorable, fun _ => rfl⟩
  obtain ⟨-, hflow, ⟨pops, hpops, hleaves⟩, houtcome⟩ := hadds f hf
  obtain rfl : some (run [.pop, .popWide] (stackValues twoConstants.outputs) []) = pops :=
    Except.ok.inj (drops_iff.mpr hpops)
  exact ⟨f, hf, hflow, hleaves, houtcome⟩

end Fragment
end JvmWeave
