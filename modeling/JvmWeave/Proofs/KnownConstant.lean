import JvmWeave.Proofs.EditHistory
import JvmWeave.Proofs.UnbindableMoves

/-!
# Known constants in place of a target

Values carry the constants that are known of them.  In place of a target, the result has the values
of the replacement only if all of them are where those of the target are; where code has to move any
of them, it has the values of the target, and with them the constants that were known of the code
that is gone.  So what is known of the outputs of the result is known of those of the replacement
exactly if nothing is moved, or if it was so before (`known_overwrite_iff`).
-/

set_option autoImplicit false

namespace JvmWeave

open MovePlan

/-- The constant that is known of the value. -/
def FlowValue.known? (v : FlowValue) : Option Constant :=
  v.constant.bind StaticValue.constant?

/-- The constant that is known of the value, if there is one, is also known of the other value. -/
def FlowValue.KnownAs (v w : FlowValue) : Prop :=
  ∀ c, v.known? = some c → w.known? = some c

/-- The values are in the same places. -/
def InPlace (source target : List FlowValue) : Prop :=
  List.Forall₂ (fun v w => v.location.SamePlace w.location) source target

/-! ## Values that are in place need no code -/

/-- A value that is in its place takes none of the routes that need an instruction. -/
theorem Move.stays_of_samePlace {p : Move} (h : p.1.location.SamePlace p.2.location) :
    ¬p.Popped ∧ ¬p.Pushed ∧ ¬p.Read := by
  unfold Popped Pushed Read
  rcases h with h | ⟨hs, ht⟩
  · rw [h]
    refine ⟨?_, ?_, fun hr => hr.2 rfl⟩
    · rintro ⟨hs, ht⟩
      cases hs.symm.trans ht
    · rintro ⟨hs, ht⟩
      cases hs.symm.trans ht
  · rw [of_decide_eq_true hs, of_decide_eq_true ht]
    exact ⟨nofun, nofun, nofun⟩

namespace MovePlan

theorem instructions_eq_nil_of_ofPairs {moves : List Move} {index : Nat} {plan : MovePlan}
    (h : ofPairs index moves = .ok plan) (hm : ∀ p ∈ moves, ¬p.Popped ∧ ¬p.Read) :
    plan.stores = [] ∧ plan.slotLoads = [] ∧ plan.slotStores = [] := by
  induction moves generalizing index plan with
  | nil =>
    cases h
    exact ⟨rfl, rfl, rfl⟩
  | cons p moves ih =>
    obtain ⟨⟨hpop, hread⟩, hms⟩ := List.forall_mem_cons.mp hm
    obtain ⟨plan', hp, ha⟩ := exists_of_ofPairs h
    have hrest := ih hp hms
    cases ha with
    | popInto hr => exact (hpop (Move.popped_iff.mpr ⟨_, hr⟩)).elim
    | @carry a b _ _ hr =>
      have hb : p.route ≠ .blocked := fun hb => by cases hr.symm.trans hb
      exact (hread ((Move.read_iff hb).mpr ⟨a, congrArg Route.readFrom? hr⟩)).elim
    | _ => exact hrest

theorem stackLoads_eq_nil {moves : List Move} {loaded : Bool} {index : Nat}
    {loads : List Instruction} (h : stackLoads loaded index moves = .ok loads)
    (hm : ∀ p ∈ moves, ¬p.Pushed) : loads = [] := by
  induction moves generalizing index with
  | nil =>
    cases h
    rfl
  | cons p moves ih =>
    obtain ⟨hp, hms⟩ := List.forall_mem_cons.mp hm
    obtain ⟨slot, family, rest, hr, -, -, -⟩ | ⟨-, hl, hrest⟩ | ⟨-, -, hrest⟩ :=
      exists_of_stackLoads h
    · exact (hp (Move.pushed_iff.mpr ⟨slot, hr⟩)).elim
    · rw [← hl] at hrest
      exact ih hrest hms
    · exact ih hrest hms

end MovePlan

/-- Of moves that succeed, exactly those need no code whose values are all in place. -/
theorem moveValues_eq_none_iff {source target : List FlowValue} {code : Option Fragment}
    (h : moveValues source target = .ok code) :
    code = none ↔ ∀ p ∈ source.zip target, p.1.location.SamePlace p.2.location := by
  constructor
  · rintro rfl
    exact samePlace_of_moveValues h
  · intro hp
    have hstays : ∀ p ∈ source.zip target, ¬Move.Popped p ∧ ¬Move.Pushed p ∧ ¬Move.Read p :=
      fun p hm => Move.stays_of_samePlace (hp p hm)
    obtain ⟨is, hi, hcode⟩ := moveValues_eq_ok_iff.mp h
    obtain ⟨plan, loads, hplan, -, hl, hi⟩ := moveInstructions_eq_ok_iff.mp hi
    obtain ⟨hs, hsl, hss⟩ := instructions_eq_nil_of_ofPairs hplan fun p hm =>
      ⟨(hstays p hm).1, (hstays p hm).2.2⟩
    obtain rfl := stackLoads_eq_nil hl fun p hm => (hstays p hm).2.1
    have hnil : is = [] := by
      rcases orders_of_instructions hi with ⟨-, rfl⟩ | ⟨-, rfl⟩
      · rw [hs, hsl, hss]
        rfl
      · rw [hs, hsl, hss]
        rfl
    rw [hcode, if_pos hnil]

theorem inPlace_iff_of_moveValues {source target : List FlowValue} {code : Option Fragment}
    (hlen : source.length = target.length) (h : moveValues source target = .ok code) :
    InPlace source target ↔ code = none := by
  rw [moveValues_eq_none_iff h]
  unfold InPlace
  rw [List.forall₂_iff_zip, and_iff_right hlen]
  exact ⟨fun hp p hm => hp hm, fun hp _ _ hm => hp _ hm⟩

/-! ## In place of a target -/

namespace Fragment

/-- The replacement finds its inputs where those of the target are, and leaves its outputs where
    those of the target are. -/
structure MatchesPlaces (target replacement : Fragment) : Prop where
  inputs : InPlace target.inputs replacement.inputs
  outputs : InPlace replacement.outputs target.outputs

/-- The result is the replacement itself if nothing has to be moved, and has the values of the
    target otherwise. -/
theorem Replaces.flow_eq {target replacement f : Fragment} (h : target.Replaces replacement f)
    (ha : target.Accepts replacement) :
    (target.MatchesPlaces replacement → f.flow = replacement.flow) ∧
      (¬target.MatchesPlaces replacement → f.flow = target.flow) := by
  have hlin := List.Forall₂.length_eq ha.inputs
  have hlout := List.Forall₂.length_eq ha.outputs
  cases h with
  | bare hin hout =>
    refine ⟨fun _ => rfl, fun hn => (hn ⟨?_, ?_⟩).elim⟩
    · exact (inPlace_iff_of_moveValues hlin hin).mpr rfl
    · exact (inPlace_iff_of_moveValues hlout hout).mpr rfl
  | bound hin hout hmoves =>
    refine ⟨fun hp => ?_, fun _ => rfl⟩
    obtain rfl := (inPlace_iff_of_moveValues hlin hin).mp hp.inputs
    obtain rfl := (inPlace_iff_of_moveValues hlout hout).mp hp.outputs
    simp at hmoves

/-- What is known of the outputs in place of a target is known of those of the replacement exactly
    if nothing has to be moved, or if what was known of the target is known of the replacement. -/
theorem known_overwrite_iff {target replacement f : Fragment} {options : InsertOptions}
    (h : target.overwrite replacement options = .ok f) :
    List.Forall₂ FlowValue.KnownAs f.outputs (replacement.asReplacement options).outputs ↔
      target.MatchesPlaces (replacement.asReplacement options) ∨
        List.Forall₂ FlowValue.KnownAs target.outputs
          (replacement.asReplacement options).outputs := by
  obtain ⟨ha, hr⟩ := overwrite_eq_ok_iff.mp h
  obtain ⟨hbare, hbound⟩ := hr.flow_eq ha
  by_cases hp : target.MatchesPlaces (replacement.asReplacement options)
  · have hout : f.outputs = (replacement.asReplacement options).outputs :=
      congrArg Flow.outputs (hbare hp)
    rw [hout]
    exact iff_of_true (List.forall₂_same.mpr fun _ _ _ => id) (.inl hp)
  · have hout : f.outputs = target.outputs := congrArg Flow.outputs (hbound hp)
    rw [hout, or_iff_right hp]

/-- The `int` 5 goes onto the stack, which is known. -/
def pushesFive : Fragment :=
  run [.intConst ⟨6, by decide⟩] [] [⟨.primitive .int, .stack 0, some (.known (.int 5))⟩]

/-- The `int` 3 goes to where 5 does in `pushesFive`. -/
def pushesThree : Fragment :=
  run [.intConst ⟨4, by decide⟩] [] [⟨.primitive .int, .stack 0, some (.known (.int 3))⟩]

/-- The `int` 3 goes into a slot. -/
def storesThree : Fragment :=
  run [.intConst ⟨4, by decide⟩, .store .int 1] []
    [⟨.primitive .int, .localSlot 1, some (.known (.int 3))⟩]

/-- Nothing is moved, and 3 is known of the result. -/
theorem known_overwrite_pushesThree :
    ∃ f, pushesFive.overwrite pushesThree {} = .ok f ∧
      f.outputs.map FlowValue.known? = [some (.int 3)] ∧
      List.Forall₂ FlowValue.KnownAs f.outputs (pushesThree.asReplacement {}).outputs := by
  have hok : pushesFive.overwrite pushesThree {} = .ok pushesThree := rfl
  have hp : pushesFive.MatchesPlaces (pushesThree.asReplacement {}) :=
    ⟨.nil, .cons (.inl rfl) .nil⟩
  exact ⟨_, hok, rfl, (known_overwrite_iff hok).mpr (.inl hp)⟩

/-- From its slot the value is loaded, and 5 is known of the result, although its code leaves 3 on
    the stack. -/
theorem not_known_overwrite_storesThree :
    ∃ f, pushesFive.overwrite storesThree {} = .ok f ∧
      f.children = [storesThree, run [.load .int 1] storesThree.outputs pushesFive.outputs] ∧
      (MachineState.runAll [.intConst ⟨4, by decide⟩, .store .int 1, .load .int 1]
        ⟨[], fun _ => none⟩).map MachineState.stack = some [.int 3] ∧
      f.outputs.map FlowValue.known? = [some (.int 5)] ∧
      ¬List.Forall₂ FlowValue.KnownAs f.outputs (storesThree.asReplacement {}).outputs := by
  refine ⟨_, rfl, rfl, by decide, rfl, ?_⟩
  intro h
  have hfive := (List.forall₂_cons.mp h).1 (.int 5) rfl
  have hthree : FlowValue.known? ⟨.primitive .int, .localSlot 1, some (.known (.int 3))⟩ =
      some (.int 3) := rfl
  cases hthree.symm.trans hfive

end Fragment
end JvmWeave
