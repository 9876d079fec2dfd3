import JvmWeave.Proofs.Assignable
import JvmWeave.Proofs.Insertion
import JvmWeave.Proofs.MovePlan
import JvmWeave.Proofs.Place

/-!
# Returns that became yields

In place of a target, the returns of a replacement hand their values to the code around it.  What is
compared with the outputs of the target are the outputs of the replacement: those that it declares,
or else the values of the first yield in it.  The other returns are compared with nothing.  So a
return is safe in place of every target exactly if its own values can be used as the outputs of the
replacement (`forall_overwrite_assignable_iff`), and two returns of different types are enough to
hand on a value of a wrong one (`at?_overwrite_twoReturns`).

Fragments inside of a tree are told apart by their paths.  Conversion keeps all paths, and an
insertion in place of a target puts them under at most one more body.
-/

set_option autoImplicit false

namespace JvmWeave

namespace Fragment

/-! ## Paths -/

theorem convertAll_eq_map (fs : List Fragment) : convertAll fs = fs.map convertReturns := by
  induction fs with
  | nil => rfl
  | cons f fs ih => rw [convertAll, ih, List.map_cons]

theorem children_convertReturns (f : Fragment) :
    f.convertReturns.children = f.children.map convertReturns := by
  cases f with
  | leaf action flow => cases action <;> rfl
  | body children flow => exact convertAll_eq_map children

/-- Conversion keeps all paths. -/
theorem at?_convertReturns (f : Fragment) (path : List Nat) :
    f.convertReturns.at? path = (f.at? path).map convertReturns := by
  induction path generalizing f with
  | nil => rfl
  | cons i path ih =>
    rw [at?_cons, at?_cons, children_convertReturns, List.getElem?_map]
    cases f.children[i]? with
    | none => rfl
    | some c => exact ih c

theorem at?_withOutputs (f : Fragment) (outputs : List FlowValue) (i : Nat) (path : List Nat) :
    (f.withOutputs outputs).at? (i :: path) = f.at? (i :: path) := by
  cases f <;> rfl

/-- A return becomes a yield of its values, wherever it is. -/
theorem at?_yieldReturns {f : Fragment} {path : List Nat} {flow : Flow}
    (h : f.at? path = some (leaf .exit flow)) :
    f.yieldReturns.at? path = some (leaf .yield ⟨flow.inputs, flow.inputs⟩) := by
  cases path with
  | nil =>
    cases h
    unfold yieldReturns
    dsimp only [convertReturns, firstYield?]
    split <;> rfl
  | cons i path =>
    have hc : f.convertReturns.at? (i :: path) = some (leaf .yield ⟨flow.inputs, flow.inputs⟩) := by
      rw [at?_convertReturns, h]
      rfl
    unfold yieldReturns
    dsimp only
    split
    · split
      · rw [at?_withOutputs, hc]
      · exact hc
    · exact hc

/-- What takes the place of a target has the replacement, or has it as one of its parts. -/
theorem Replaces.exists_at? {target replacement f : Fragment} (h : target.Replaces replacement f) :
    ∃ above, ∀ path, f.at? (above ++ path) = replacement.at? path := by
  cases h with
  | bare => exact ⟨[], fun _ => rfl⟩
  | @bound bindInputs bindOutputs =>
    refine ⟨[bindInputs.toList.length], fun path => ?_⟩
    rw [List.singleton_append, at?_cons, children, List.append_assoc,
      List.getElem?_append_right (Nat.le_refl _), Nat.sub_self]
    rfl

/-! ## Targets with other outputs -/

theorem outcome_withOutputs (f : Fragment) (outputs : List FlowValue) :
    (f.withOutputs outputs).outcome = f.outcome := by
  cases f <;> rfl

end Fragment

instance : IsTrans FlowValue FlowValue.Assignable :=
  ⟨fun _ _ _ => JavaType.isAssignable_trans⟩

theorem FlowValue.forall₂_assignable_iff {vs ws : List FlowValue} :
    List.Forall₂ FlowValue.Assignable vs ws ↔
      List.Forall₂ (fun t u => t.isAssignable u = true) (vs.map FlowValue.type)
        (ws.map FlowValue.type) := by
  rw [List.forall₂_map_left_iff, List.forall₂_map_right_iff]
  rfl

/-- The values in the places of those that they can be used for. -/
theorem FlowValue.exists_sameSlots {givens wanteds : List FlowValue}
    (h : List.Forall₂ FlowValue.Assignable givens wanteds) :
    ∃ retyped : List FlowValue, List.Forall₂ FlowValue.SameSlots wanteds retyped ∧
      retyped.map FlowValue.type = givens.map FlowValue.type := by
  induction h with
  | nil => exact ⟨[], .nil, rfl⟩
  | @cons given wanted _ _ ha _ ih =>
    obtain ⟨retyped, hs, ht⟩ := ih
    refine ⟨{ wanted with type := given.type } :: retyped, .cons ⟨rfl, ?_⟩ hs, ?_⟩
    · exact fun family hf => JavaType.storageClass_of_isAssignable ha hf
    · rw [List.map_cons, List.map_cons, ht]

namespace Fragment

/-- What can take the place of some target can take that of one with its own types as outputs. -/
theorem exists_overwrite_of_accepts {target replacement f : Fragment} {options : InsertOptions}
    (h : target.overwrite replacement options = .ok f) :
    ∃ target' f' : Fragment, target'.overwrite replacement options = .ok f' ∧
      target'.outputs.map FlowValue.type =
        (replacement.asReplacement options).outputs.map FlowValue.type := by
  obtain ⟨⟨hin, hout, hgo⟩, hr⟩ := overwrite_eq_ok_iff.mp h
  obtain ⟨retyped, hs, ht⟩ := FlowValue.exists_sameSlots hout
  obtain ⟨bindInputs, bindOutputs, hbin, hbout⟩ := hr.exists_moves
  obtain ⟨is, hi, -⟩ := moveValues_eq_ok_iff.mp hbout
  have hmoves := moveValues_eq_ok_iff.mpr ⟨is, moveInstructions_of_sameSlots hs hi, rfl⟩
  have hinputs := inputs_withOutputs target retyped
  have houtputs := outputs_withOutputs target retyped
  have haccepts : (target.withOutputs retyped).Accepts (replacement.asReplacement options) := by
    refine ⟨?_, ?_, ?_⟩
    · rw [hinputs]
      exact hin
    · rw [houtputs, FlowValue.forall₂_assignable_iff, ht]
      exact List.forall₂_same.mpr fun t _ => JavaType.isAssignable_refl t
    · rw [outcome_withOutputs]
      exact hgo
  rw [← hinputs] at hbin
  rw [← houtputs] at hmoves
  obtain ⟨f', hf'⟩ := Replaces.exists_of_moves hbin hmoves
  exact ⟨_, f', overwrite_eq_ok_iff.mpr ⟨haccepts, hf'⟩, by rw [houtputs, ht]⟩

/-- A return of a replacement yields what every target is to give exactly if its values can be used
    as the outputs of the replacement. -/
theorem forall_overwrite_assignable_iff {target₀ replacement f₀ : Fragment}
    {options₀ : InsertOptions} (h : target₀.overwrite replacement options₀ = .ok f₀)
    (hc : options₀.returnsToOutputs = true) {path : List Nat} {flow : Flow}
    (hr : replacement.at? path = some (leaf .exit flow)) :
    (∀ (target : Fragment) (options : InsertOptions) (f : Fragment),
      target.overwrite replacement options = .ok f → options.returnsToOutputs = true →
        ∃ above, f.at? (above ++ path) = some (leaf .yield ⟨flow.inputs, flow.inputs⟩) ∧
          List.Forall₂ FlowValue.Assignable flow.inputs target.outputs) ↔
      List.Forall₂ FlowValue.Assignable flow.inputs replacement.yieldReturns.outputs := by
  constructor
  · intro hall
    obtain ⟨target, f, hf, ht⟩ := exists_overwrite_of_accepts h
    obtain ⟨-, -, hfit⟩ := hall target options₀ f hf hc
    rw [FlowValue.forall₂_assignable_iff] at hfit ⊢
    rw [ht] at hfit
    unfold asReplacement at hfit
    rwa [if_pos hc] at hfit
  · intro hfit target options f hf hc
    obtain ⟨ha, hreplaces⟩ := overwrite_eq_ok_iff.mp hf
    unfold asReplacement at ha hreplaces
    rw [if_pos hc] at ha hreplaces
    obtain ⟨above, habove⟩ := hreplaces.exists_at?
    exact ⟨above, (habove path).trans (at?_yieldReturns hr),
      forall₂_trans hfit ha.outputs⟩

/-- A call that gives a string. -/
def nameCall : Fragment :=
  call .object "name" [] [⟨.string, .stack 0, none⟩]

/-- Code that returns a string, and an object further on. -/
def twoReturns : Fragment :=
  body
    [nameCall, returning (some ⟨.string, .stack 0, none⟩),
      call .object "owner" [] [⟨.object, .stack 0, none⟩],
      returning (some ⟨.object, .stack 0, none⟩)]
    ⟨[], []⟩

/-- The first return is safe. -/
theorem forall_overwrite_twoReturns :
    (∃ f, nameCall.overwrite twoReturns {} = .ok f) ∧
      twoReturns.at? [1] = some (leaf .exit ⟨[⟨.string, .stack 0, none⟩], []⟩) ∧
      ∀ (target : Fragment) (options : InsertOptions) (f : Fragment),
        target.overwrite twoReturns options = .ok f → options.returnsToOutputs = true →
          ∃ above, f.at? (above ++ [1]) =
              some (leaf .yield ⟨[⟨.string, .stack 0, none⟩], [⟨.string, .stack 0, none⟩]⟩) ∧
            List.Forall₂ FlowValue.Assignable [⟨.string, .stack 0, none⟩] target.outputs := by
  have hok : nameCall.overwrite twoReturns {} = .ok _ := rfl
  have hpath : twoReturns.at? [1] = some (leaf .exit ⟨[⟨.string, .stack 0, none⟩], []⟩) := rfl
  refine ⟨⟨_, hok⟩, hpath, (forall_overwrite_assignable_iff hok rfl hpath).mpr ?_⟩
  exact .cons (JavaType.isAssignable_refl _) .nil

/-- The second one hands on an object in place of a string. -/
theorem at?_overwrite_twoReturns :
    ∃ f, nameCall.overwrite twoReturns {} = .ok f ∧
      twoReturns.at? [3] = some (leaf .exit ⟨[⟨.object, .stack 0, none⟩], []⟩) ∧
      f.at? [3] =
        some (leaf .yield ⟨[⟨.object, .stack 0, none⟩], [⟨.object, .stack 0, none⟩]⟩) ∧
      ¬List.Forall₂ FlowValue.Assignable [⟨.object, .stack 0, none⟩] nameCall.outputs := by
  refine ⟨_, rfl, rfl, rfl, ?_⟩
  intro h
  cases h with
  | cons h _ => exact absurd h (by decide)

end Fragment
end JvmWeave
