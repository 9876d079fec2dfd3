import JvmWeave.Proofs.ConvertedReturn
import JvmWeave.Proofs.Exits

/-!
# Trees without returns

Conversion goes through a whole tree and makes yields of its returns.  All else stays in its place,
with one exception: a tree that has no outputs gets those of its first yield, which may be one that
it had before.

What takes the place of a target after that has no return in it.  The code around a replacement only
loads and stores, so the leaves of the replacement alone decide how the whole is left: a run of
instructions may still return, and control can go on past the whole exactly if it can go on past
every leaf that is not a return.
-/

set_option autoImplicit false

namespace JvmWeave

/-- Code returns from a sequence exactly if some part of it does. -/
theorem Outcome.returns_sequence {parts : List Outcome} :
    (sequence parts).returns = true ↔ ∃ p ∈ parts, p.returns = true := by
  induction parts with
  | nil => simp [onward]
  | cons p parts ih => simp [andThen, ih]

theorem Outcome.sequence_eq_onward {parts : List Outcome} (h : ∀ p ∈ parts, p = onward) :
    sequence parts = onward := by
  induction parts with
  | nil => rfl
  | cons p parts ih =>
    obtain ⟨hp, hparts⟩ := List.forall_mem_cons.mp h
    rw [sequence_cons, hp, ih hparts, onward_andThen]

theorem Instruction.IsMove.outcome_eq {i : Instruction} (h : i.IsMove) : i.outcome = .onward := by
  obtain ⟨family, slot, rfl | rfl⟩ := h <;> rfl

namespace Fragment

/-! ## Leaves and places -/

mutual

theorem mem_leaves_iff : ∀ {f g : Fragment},
    g ∈ f.leaves ↔ ∃ path action flow, g = leaf action flow ∧ f.at? path = some g
  | leaf action flow, g => by
    rw [leaves, List.mem_singleton]
    constructor
    · rintro rfl
      exact ⟨[], action, flow, rfl, rfl⟩
    · rintro ⟨path, action', flow', rfl, h⟩
      cases path with
      | nil => exact (Option.some.inj h).symm
      | cons i path => cases h
  | body children flow, g => by
    rw [leaves, mem_leavesInOrder_iff]
    constructor
    · rintro ⟨i, path, c, action, flow', hc, rfl, h⟩
      refine ⟨i :: path, action, flow', rfl, ?_⟩
      rw [at?_cons, Fragment.children, hc]
      exact h
    · rintro ⟨path, action, flow', rfl, h⟩
      cases path with
      | nil => cases h
      | cons i path =>
        obtain ⟨c, hc, h⟩ := Option.bind_eq_some_iff.mp h
        exact ⟨i, path, c, action, flow', hc, rfl, h⟩

theorem mem_leavesInOrder_iff : ∀ {fs : List Fragment} {g : Fragment},
    g ∈ leavesInOrder fs ↔ ∃ (i : Nat) (path : List Nat) (c : Fragment) (action : Action)
      (flow : Flow), fs[i]? = some c ∧ g = leaf action flow ∧ c.at? path = some g
  | [], g => by simp [leavesInOrder]
  | f :: fs, g => by
    rw [leavesInOrder, List.mem_append, mem_leaves_iff, mem_leavesInOrder_iff]
    constructor
    · rintro (⟨path, action, flow, hg, h⟩ | ⟨i, path, c, action, flow, hc, hg⟩)
      · exact ⟨0, path, f, action, flow, rfl, hg, h⟩
      · exact ⟨i + 1, path, c, action, flow, hc, hg⟩
    · rintro ⟨i, path, c, action, flow, hc, hg, h⟩
      cases i with
      | zero =>
        cases hc
        exact .inl ⟨path, action, flow, hg, h⟩
      | succ i => exact .inr ⟨i, path, c, action, flow, hc, hg, h⟩

end

theorem leaf_mem_leaves_iff {f : Fragment} {action : Action} {flow : Flow} :
    leaf action flow ∈ f.leaves ↔ ∃ path, f.at? path = some (leaf action flow) := by
  rw [mem_leaves_iff]
  constructor
  · rintro ⟨path, -, -, -, h⟩
    exact ⟨path, h⟩
  · rintro ⟨path, h⟩
    exact ⟨path, action, flow, rfl, h⟩

theorem exists_leaf_of_mem_leaves {f g : Fragment} (h : g ∈ f.leaves) :
    ∃ action flow, g = leaf action flow := by
  obtain ⟨-, action, flow, hg, -⟩ := mem_leaves_iff.mp h
  exact ⟨action, flow, hg⟩

theorem returns_iff_leaves {f : Fragment} :
    f.outcome.returns = true ↔ ∃ g ∈ f.leaves, g.outcome.returns = true := by
  rw [outcome_eq_sequence_leaves, Outcome.returns_sequence]
  simp

theorem fallsThrough_iff_leaves {f : Fragment} :
    f.outcome.fallsThrough = true ↔ ∀ g ∈ f.leaves, g.outcome.fallsThrough = true := by
  rw [outcome_eq_sequence_leaves, Outcome.fallsThrough_sequence]
  simp

mutual

theorem leaves_convertReturns : ∀ f : Fragment,
    f.convertReturns.leaves = f.leaves.map convertReturns
  | leaf action flow => by cases action <;> rfl
  | body children flow => leavesInOrder_convertAll children

theorem leavesInOrder_convertAll : ∀ fs : List Fragment,
    leavesInOrder (convertAll fs) = (leavesInOrder fs).map convertReturns
  | [] => rfl
  | f :: fs => by
    rw [convertAll, leavesInOrder, leavesInOrder, leaves_convertReturns f,
      leavesInOrder_convertAll fs, List.map_append]

end

mutual

/-- Something is converted exactly if there is a return. -/
theorem returnCount_pos_iff : ∀ {f : Fragment},
    0 < f.returnCount ↔ ∃ flow, leaf .exit flow ∈ f.leaves
  | leaf action flow => by cases action <;> simp [returnCount, leaves]
  | body children flow => @returnCounts_pos_iff children

theorem returnCounts_pos_iff : ∀ {fs : List Fragment},
    0 < returnCounts fs ↔ ∃ flow, leaf .exit flow ∈ leavesInOrder fs
  | [] => by simp [returnCounts, leavesInOrder]
  | f :: fs => by
    rw [returnCounts, leavesInOrder, Nat.add_pos_iff_pos_or_pos, returnCount_pos_iff (f := f),
      @returnCounts_pos_iff fs, ← exists_or]
    simp

end

mutual

/-- The first yield is the first among the leaves. -/
theorem firstYield?_eq_find? : ∀ f : Fragment, f.firstYield? = f.leaves.find? (isKind .yield)
  | leaf action flow => by cases action <;> rfl
  | body children flow => firstYieldIn?_eq_find? children

theorem firstYieldIn?_eq_find? : ∀ fs : List Fragment,
    firstYieldIn? fs = (leavesInOrder fs).find? (isKind .yield)
  | [] => rfl
  | f :: fs => by
    rw [firstYieldIn?, leavesInOrder, List.find?_append, firstYield?_eq_find? f,
      firstYieldIn?_eq_find? fs]
    cases f.leaves.find? (isKind .yield) <;> rfl

end

/-! ## Conversion -/

/-- Where there is a return there is a yield afterwards. -/
theorem exists_find?_yield {f : Fragment} {flow : Flow} (h : leaf .exit flow ∈ f.leaves) :
    ∃ y, f.convertReturns.leaves.find? (isKind .yield) = some y := by
  rw [← Option.isSome_iff_exists, List.find?_isSome, leaves_convertReturns]
  exact ⟨_, List.mem_map_of_mem h, rfl⟩

/-- A leaf becomes a yield or stays. -/
theorem yieldReturns_leaf (action : Action) (flow : Flow) :
    (leaf action flow).yieldReturns = (leaf action flow).convertReturns := by
  unfold yieldReturns
  cases action <;> simp [returnCount, convertReturns, firstYield?, withOutputs, Fragment.outputs,
    Fragment.flow]

/-- A body keeps its own values, unless it has no outputs and there is a return in it. -/
theorem yieldReturns_body (children : List Fragment) (flow : Flow) :
    ∃ outputs, (body children flow).yieldReturns =
        body (children.map convertReturns) ⟨flow.inputs, outputs⟩ ∧
      (outputs ≠ flow.outputs →
        flow.outputs = [] ∧ ∃ flow', leaf .exit flow' ∈ leavesInOrder children) ∧
      (flow.outputs = [] → (∃ flow', leaf .exit flow' ∈ leavesInOrder children) →
        ∃ y, (body children flow).convertReturns.leaves.find? (isKind .yield) = some y ∧
          outputs = y.outputs) := by
  have hcount := returnCount_pos_iff (f := body children flow)
  rw [leaves] at hcount
  rw [← hcount]
  unfold yieldReturns
  dsimp only
  by_cases h : 0 < (body children flow).returnCount ∧
      (body children flow).convertReturns.outputs = []
  · obtain ⟨flow', hflow⟩ := hcount.mp h.1
    obtain ⟨y, hy⟩ := exists_find?_yield (f := body children flow) hflow
    refine ⟨y.outputs, ?_, fun _ => ⟨h.2, h.1⟩, fun _ _ => ⟨y, hy, rfl⟩⟩
    rw [if_pos h, firstYield?_eq_find?, hy, convertReturns, convertAll_eq_map]
    rfl
  · refine ⟨flow.outputs, ?_, fun hne => absurd rfl hne, fun ho hr => absurd ⟨hr, ho⟩ h⟩
    rw [if_neg h, convertReturns, convertAll_eq_map]

theorem leaves_yieldReturns (f : Fragment) :
    f.yieldReturns.leaves = f.leaves.map convertReturns := by
  cases f with
  | leaf action flow => rw [yieldReturns_leaf, leaves_convertReturns]
  | body children flow =>
    obtain ⟨outputs, hbody, -⟩ := yieldReturns_body children flow
    rw [hbody, leaves, leaves, ← convertAll_eq_map, leavesInOrder_convertAll]

/-- Inside of the tree all that happens is the conversion. -/
theorem at?_yieldReturns_cons (f : Fragment) (i : Nat) (path : List Nat) :
    f.yieldReturns.at? (i :: path) = (f.at? (i :: path)).map convertReturns := by
  rw [← at?_convertReturns]
  cases f with
  | leaf action flow => rw [yieldReturns_leaf]
  | body children flow =>
    obtain ⟨outputs, hbody, -⟩ := yieldReturns_body children flow
    rw [hbody, convertReturns, convertAll_eq_map]
    rfl

theorem convertReturns_of_ne {action : Action} (h : action ≠ .exit) (flow : Flow) :
    (leaf action flow).convertReturns = leaf action flow := by
  cases action <;> first | rfl | exact absurd rfl h

/-- Whether the fragment is a leaf, and how many parts it has. -/
def form (f : Fragment) : Bool × Nat :=
  (f.action?.isSome, f.children.length)

theorem form_convertReturns (f : Fragment) : f.convertReturns.form = f.form := by
  unfold form
  rw [children_convertReturns, List.length_map]
  cases f with
  | leaf action flow => cases action <;> rfl
  | body children flow => rfl

theorem form_yieldReturns (f : Fragment) : f.yieldReturns.form = f.form := by
  cases f with
  | leaf action flow => rw [yieldReturns_leaf, form_convertReturns]
  | body children flow =>
    obtain ⟨outputs, hbody, -⟩ := yieldReturns_body children flow
    rw [hbody]
    simp [form, action?, Fragment.children]

/-- The second tree is the first with its returns turned into yields, and with outputs if it has
    none otherwise. -/
structure Converts (f g : Fragment) : Prop where
  /-- There are leaves where there were leaves, and bodies of as many parts where there were
      bodies. -/
  shape : ∀ path, (g.at? path).map form = (f.at? path).map form
  returns : ∀ path flow, f.at? path = some (leaf .exit flow) →
    g.at? path = some (leaf .yield ⟨flow.inputs, flow.inputs⟩)
  leaves : ∀ path action flow, action ≠ .exit → f.at? path = some (leaf action flow) →
    g.at? path = some (leaf action flow)
  bodies : ∀ path children flow, path ≠ [] → f.at? path = some (body children flow) →
    ∃ children', g.at? path = some (body children' flow)
  inputs : g.inputs = f.inputs
  /-- The outputs of a whole tree that is no return itself. -/
  outputs : f.kind ≠ .exit → g.outputs ≠ f.outputs →
    f.outputs = [] ∧ ∃ path flow, f.at? path = some (leaf .exit flow)
  yielded : f.kind ≠ .exit → f.outputs = [] →
    (∃ path flow, f.at? path = some (leaf .exit flow)) →
    ∃ y, g.leaves.find? (isKind .yield) = some y ∧ g.outputs = y.outputs

theorem converts_yieldReturns (f : Fragment) : f.Converts f.yieldReturns := by
  have hreturn : (∃ path flow, f.at? path = some (leaf .exit flow)) ↔
      ∃ flow, leaf .exit flow ∈ f.leaves := by
    simp only [leaf_mem_leaves_iff]
    exact exists_comm
  refine ⟨?_, fun path flow h => at?_yieldReturns h, ?_, ?_, inputs_yieldReturns f, ?_, ?_⟩
  · intro path
    cases path with
    | nil => exact congrArg some (form_yieldReturns f)
    | cons i path =>
      rw [at?_yieldReturns_cons]
      cases f.at? (i :: path) with
      | none => rfl
      | some c => exact congrArg some (form_convertReturns c)
  · intro path action flow haction h
    cases path with
    | nil =>
      cases h
      exact congrArg some ((yieldReturns_leaf ..).trans (convertReturns_of_ne haction flow))
    | cons i path =>
      rw [at?_yieldReturns_cons, h, Option.map_some, convertReturns_of_ne haction]
  · intro path children flow hpath h
    obtain ⟨i, path, rfl⟩ := List.exists_cons_of_ne_nil hpath
    rw [at?_yieldReturns_cons, h]
    exact ⟨_, rfl⟩
  · intro hkind hne
    rw [hreturn]
    cases f with
    | leaf action flow =>
      have haction : action ≠ .exit := fun h => hkind (by rw [h]; rfl)
      rw [yieldReturns_leaf, convertReturns_of_ne haction] at hne
      exact absurd rfl hne
    | body children flow =>
      obtain ⟨outputs, hbody, hchanged, -⟩ := yieldReturns_body children flow
      rw [hbody] at hne
      exact hchanged hne
  · intro hkind hempty hreturns
    cases f with
    | leaf action flow =>
      obtain ⟨path, flow', h⟩ := hreturns
      cases path with
      | nil =>
        cases h
        exact absurd rfl hkind
      | cons i path => cases h
    | body children flow =>
      obtain ⟨outputs, hbody, -, hyield⟩ := yieldReturns_body children flow
      rw [leaves_yieldReturns, ← leaves_convertReturns, hbody]
      exact hyield hempty (hreturn.mp hreturns)

/-! ## In place of a target -/

/-- Code that moves values goes on and does nothing else. -/
theorem leaves_of_moveValues {source target : List FlowValue} {code : Option Fragment}
    (h : moveValues source target = .ok code) :
    ∀ g ∈ leavesInOrder code.toList, g.outcome = .onward ∧ g.kind ≠ .exit := by
  obtain ⟨is, hi, rfl⟩ := moveValues_eq_ok_iff.mp h
  intro g hg
  split at hg
  · cases hg
  · obtain rfl := List.mem_singleton.mp hg
    refine ⟨Outcome.sequence_eq_onward ?_, nofun⟩
    intro o ho
    obtain ⟨i, hm, rfl⟩ := List.mem_map.mp ho
    exact (MovePlan.isMove_of_moveInstructions hi i hm).outcome_eq

/-- The leaves of what takes the place of a target are those of the replacement and of code that
    moves values. -/
theorem Replaces.exists_leaves {target replacement f : Fragment}
    (h : target.Replaces replacement f) :
    ∃ before after, f.leaves = before ++ replacement.leaves ++ after ∧
      ∀ g, g ∈ before ∨ g ∈ after → g.outcome = .onward ∧ g.kind ≠ .exit := by
  cases h with
  | bare => exact ⟨[], [], by simp, by simp⟩
  | @bound bindInputs bindOutputs hin hout =>
    refine ⟨leavesInOrder bindInputs.toList, leavesInOrder bindOutputs.toList, ?_, ?_⟩
    · simp [leaves, leavesInOrder]
    · rintro g (hg | hg)
      · exact leaves_of_moveValues hin g hg
      · exact leaves_of_moveValues hout g hg

/-- Of a converted replacement these are its leaves, each converted. -/
theorem Replaces.exists_converted {target f g : Fragment} (h : target.Replaces f.yieldReturns g) :
    ∃ around : List Fragment, (∀ l ∈ around, l.outcome = .onward ∧ l.kind ≠ .exit) ∧
      ∀ l, l ∈ g.leaves ↔ l ∈ around ∨
        ∃ action flow, leaf action flow ∈ f.leaves ∧ (leaf action flow).convertReturns = l := by
  obtain ⟨before, after, hleaves, haround⟩ := h.exists_leaves
  refine ⟨before ++ after, fun l hl => haround l (List.mem_append.mp hl), ?_⟩
  intro l
  rw [hleaves, leaves_yieldReturns]
  simp only [List.mem_append, List.mem_map]
  constructor
  · rintro ((h | ⟨m, hm, rfl⟩) | h)
    · exact .inl (.inl h)
    · obtain ⟨action, flow, rfl⟩ := exists_leaf_of_mem_leaves hm
      exact .inr ⟨action, flow, hm, rfl⟩
    · exact .inl (.inr h)
  · rintro ((h | h) | ⟨action, flow, hm, rfl⟩)
    · exact .inl (.inl h)
    · exact .inr h
    · exact .inl (.inr ⟨_, hm, rfl⟩)

theorem kind_convertReturns_ne (f : Fragment) : f.convertReturns.kind ≠ .exit := by
  cases f with
  | leaf action flow => cases action <;> simp [convertReturns, kind, Action.kind]
  | body children flow => simp [convertReturns, kind]

/-- A leaf returns after conversion if it is a run of instructions that does. -/
theorem returns_convertReturns_leaf {action : Action} {flow : Flow} :
    (leaf action flow).convertReturns.outcome.returns = true ↔
      ∃ is o, action = .run is o ∧ o.returns = true := by
  cases action <;>
    simp [convertReturns, outcome, Action.outcome, Outcome.mayThrow, Outcome.onward]

theorem fallsThrough_convertReturns_leaf {action : Action} {flow : Flow} :
    (leaf action flow).convertReturns.outcome.fallsThrough = true ↔
      (action ≠ .exit → action.outcome.fallsThrough = true) := by
  cases action <;> simp [convertReturns, outcome, Action.outcome, Outcome.onward]

/-- Conversion makes yields of all returns and leaves all else in its place.  So after a converted
    fragment has been put in place of any target, there is no return in what takes the place, it can
    be left by returning only where instructions of the fragment return, and control can go on past
    it exactly if it can go on past all leaves of the fragment that are no returns. -/
theorem yieldReturns_complete (f : Fragment) :
    f.Converts f.yieldReturns ∧
      ∀ (target : Fragment) (options : InsertOptions) (g : Fragment),
        options.returnsToOutputs = true → target.insert f .overwrite options = .ok g →
        (∀ path flow, g.at? path ≠ some (leaf .exit flow)) ∧
        (g.outcome.returns = true ↔
          ∃ is o flow, leaf (.run is o) flow ∈ f.leaves ∧ o.returns = true) ∧
        (g.outcome.fallsThrough = true ↔
          ∀ action flow, leaf action flow ∈ f.leaves → action ≠ .exit →
            action.outcome.fallsThrough = true) := by
  refine ⟨converts_yieldReturns f, ?_⟩
  intro target options g hoption hg
  obtain ⟨-, hreplaces⟩ := overwrite_eq_ok_iff.mp hg
  unfold asReplacement at hreplaces
  rw [if_pos hoption] at hreplaces
  -- Code that moves values neither returns nor stops, so the leaves around count for nothing.
  obtain ⟨around, haround, hmem⟩ := hreplaces.exists_converted
  refine ⟨?_, ?_, ?_⟩
  · intro path flow h
    rcases (hmem _).mp (leaf_mem_leaves_iff.mpr ⟨path, h⟩) with h | ⟨action, flow', -, h⟩
    · exact (haround _ h).2 rfl
    · exact kind_convertReturns_ne _ (by rw [h]; rfl)
  · rw [returns_iff_leaves]
    constructor
    · rintro ⟨l, hl, hreturns⟩
      rcases (hmem l).mp hl with h | ⟨action, flow, hm, rfl⟩
      · rw [(haround l h).1] at hreturns
        cases hreturns
      · obtain ⟨is, o, rfl, ho⟩ := returns_convertReturns_leaf.mp hreturns
        exact ⟨is, o, flow, hm, ho⟩
    · rintro ⟨is, o, flow, hm, ho⟩
      exact ⟨_, (hmem _).mpr (.inr ⟨_, flow, hm, rfl⟩), ho⟩
  · rw [fallsThrough_iff_leaves]
    constructor
    · intro hall action flow hm
      exact fallsThrough_convertReturns_leaf.mp (hall _ ((hmem _).mpr (.inr ⟨_, flow, hm, rfl⟩)))
    · intro hall l hl
      rcases (hmem l).mp hl with h | ⟨action, flow, hm, rfl⟩
      · rw [(haround l h).1]
        rfl
      · exact fallsThrough_convertReturns_leaf.mpr (hall action flow hm)

/-- Instructions that may return, and a name that is returned further in. -/
def earlyReturn : Fragment :=
  body
    [leaf (.run [] ⟨true, false, true⟩) ⟨[], []⟩,
      body [nameCall, returning (some ⟨.string, .stack 0, none⟩)] ⟨[], []⟩]
    ⟨[], []⟩

/-- The return at the end becomes a yield, and the one among the instructions stays. -/
theorem yieldReturns_complete_earlyReturn :
    ∃ g, nameCall.insert earlyReturn .overwrite {} = .ok g ∧
      g.at? [1, 1] =
        some (leaf .yield ⟨[⟨.string, .stack 0, none⟩], [⟨.string, .stack 0, none⟩]⟩) ∧
      (∀ path flow, g.at? path ≠ some (leaf .exit flow)) ∧
      g.outcome.returns = true ∧ g.outcome.fallsThrough = true := by
  have hok : nameCall.insert earlyReturn .overwrite {} = .ok earlyReturn.yieldReturns := rfl
  obtain ⟨hconverts, hcomplete⟩ := yieldReturns_complete earlyReturn
  obtain ⟨hnone, hreturns, hgoes⟩ := hcomplete nameCall {} _ rfl hok
  refine ⟨_, hok, hconverts.returns [1, 1] _ rfl, hnone, hreturns.mpr ?_, hgoes.mpr ?_⟩
  · exact ⟨[], ⟨true, false, true⟩, ⟨[], []⟩, List.mem_cons_self, rfl⟩
  · intro action flow hm hne
    simp only [earlyReturn, nameCall, call, returning, leaves, leavesInOrder, List.mem_append,
      List.mem_singleton, leaf.injEq, List.not_mem_nil, or_false] at hm
    rcases hm with ⟨rfl, -⟩ | ⟨rfl, -⟩ | ⟨rfl, -⟩
    · rfl
    · rfl
    · exact absurd rfl hne

/-- A return that also says what comes out of it, which no return does. -/
def declaredReturn : Fragment :=
  leaf .exit
    ⟨[⟨.primitive .int, .stack 0, none⟩], [⟨.primitive .int, .stack 0, some (.known (.int 3))⟩]⟩

/-- Conversion goes by the inputs, so that the outputs of a tree that is itself a return do not
    count even if there are some. -/
theorem outputs_yieldReturns_declaredReturn :
    declaredReturn.outputs ≠ [] ∧
      declaredReturn.yieldReturns.outputs = declaredReturn.inputs ∧
      declaredReturn.yieldReturns.outputs ≠ declaredReturn.outputs := by
  refine ⟨nofun, rfl, ?_⟩
  decide

end Fragment
end JvmWeave
