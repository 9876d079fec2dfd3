import JvmWeave.Proofs.Insertion
import JvmWeave.Proofs.Machine

/-!
# Outputs kept before a target

A fragment that is inserted before a target can leave its outputs on the stack.  There they lie on
top of the operands that the target is about to take, and no code brings the operands back to the
top.  Fragments are run here by what they declare: a leaf takes its stack inputs from the top of the
stack and puts its stack outputs there, and a body runs its parts.  On such runs the operands of the
target are kept exactly if there are none, or if the inserted fragment has no stack outputs
(`keepsOperands_iff`).

Stacks are written with the top last, in the order in which flows list their values.
-/

set_option autoImplicit false

namespace JvmWeave

/-- The machine value can be a value that flows: it has the storage class of the type, if there is
    one. -/
def FlowValue.Admits (v : FlowValue) (x : MachineValue) : Prop :=
  ∀ family, StorageClass.ofType v.type = .ok family → x.family = family

/-- The values of a flow that are on the stack. -/
def stackValues (vs : List FlowValue) : List FlowValue :=
  vs.filter fun v => v.location.isStack

/-- The machine values that lie on the stack for the values of a flow. -/
def Operands (vs : List FlowValue) (xs : List MachineValue) : Prop :=
  List.Forall₂ FlowValue.Admits (stackValues vs) xs

theorem Operands.append {vs ws : List FlowValue} {xs ys : List MachineValue}
    (hx : Operands vs xs) (hy : Operands ws ys) : Operands (vs ++ ws) (xs ++ ys) := by
  unfold Operands stackValues
  rw [List.filter_append]
  exact List.rel_append hx hy

theorem Operands.eq_nil {vs : List FlowValue} {xs : List MachineValue} (h : Operands vs xs)
    (hv : stackValues vs = []) : xs = [] := by
  unfold Operands at h
  rw [hv] at h
  exact List.forall₂_nil_left_iff.mp h

theorem Operands.nil {vs : List FlowValue} (hv : stackValues vs = []) : Operands vs [] := by
  unfold Operands
  rw [hv]
  exact .nil

/-- What is declared by a flow: its stack inputs are taken from the top of the stack, and its stack
    outputs are put there. -/
def Flow.Passes (flow : Flow) (σ σ' : List MachineValue) : Prop :=
  ∃ rest taken given, Operands flow.inputs taken ∧ Operands flow.outputs given ∧
    σ = rest ++ taken ∧ σ' = rest ++ given

namespace Fragment

mutual

/-- Control passes the fragment, and the stack changes as its leaves declare. -/
def Runs : Fragment → List MachineValue → List MachineValue → Prop
  | leaf action flow, σ, σ' => action.outcome.fallsThrough = true ∧ flow.Passes σ σ'
  | body children _, σ, σ' => RunsAll children σ σ'

def RunsAll : List Fragment → List MachineValue → List MachineValue → Prop
  | [], σ, σ' => σ = σ'
  | f :: fs, σ, σ' => ∃ between, f.Runs σ between ∧ RunsAll fs between σ'

end

theorem runsAll_singleton {f : Fragment} {σ σ' : List MachineValue} :
    RunsAll [f] σ σ' ↔ f.Runs σ σ' := by
  simp [RunsAll]

theorem runsAll_parts {f : Fragment} {σ σ' : List MachineValue} :
    RunsAll f.parts σ σ' ↔ f.Runs σ σ' := by
  cases f with
  | leaf action flow => exact runsAll_singleton
  | body children flow => rw [parts, Runs]

/-- The whole of a fragment does what it declares. -/
def Faithful (f : Fragment) : Prop :=
  ∀ σ σ', f.Runs σ σ' → f.flow.Passes σ σ'

theorem faithful_leaf (action : Action) (flow : Flow) : (leaf action flow).Faithful := by
  intro σ σ' h
  rw [Runs] at h
  exact h.2

mutual

/-- What lies beneath does not matter. -/
theorem Runs.frame (base : List MachineValue) : ∀ {f : Fragment} {σ σ' : List MachineValue},
    f.Runs σ σ' → f.Runs (base ++ σ) (base ++ σ')
  | leaf action flow, σ, σ', h => by
    rw [Runs] at h ⊢
    obtain ⟨hgo, rest, taken, given, ht, hg, rfl, rfl⟩ := h
    exact ⟨hgo, base ++ rest, taken, given, ht, hg, by simp, by simp⟩
  | body children flow, σ, σ', h => by
    rw [Runs] at h ⊢
    exact RunsAll.frame base h

theorem RunsAll.frame (base : List MachineValue) : ∀ {fs : List Fragment}
    {σ σ' : List MachineValue}, RunsAll fs σ σ' → RunsAll fs (base ++ σ) (base ++ σ')
  | [], σ, σ', h => by
    rw [RunsAll] at h ⊢
    rw [h]
  | f :: fs, σ, σ', h => by
    rw [RunsAll] at h ⊢
    obtain ⟨between, hf, hfs⟩ := h
    exact ⟨base ++ between, Runs.frame base hf, RunsAll.frame base hfs⟩

end

/-! ## Operands -/

/-- Before the code of a target there is other code in a fragment.  When control comes to the code
    of the target, its operands are on top of the stack.  When control has passed it, the outputs of
    the whole lie where the operands were. -/
structure KeepsOperands (target f : Fragment) : Prop where
  reached : ∀ before base ins σ, f.children = before ++ target.parts →
    Operands target.inputs ins → RunsAll before (base ++ ins) σ → ins <:+ σ
  passed : ∀ base ins σ, Operands target.inputs ins → f.Runs (base ++ ins) σ →
    ∃ outs, Operands f.outputs outs ∧ σ = base ++ outs

/-- A fragment without inputs puts its outputs on top of the stack. -/
theorem Faithful.exists_given {f : Fragment} (hf : f.Faithful) (hi : f.inputs = [])
    {σ σ' : List MachineValue} (h : f.Runs σ σ') :
    ∃ given, Operands f.outputs given ∧ σ' = σ ++ given := by
  obtain ⟨rest, taken, given, ht, hg, rfl, rfl⟩ := hf σ σ' h
  change Operands f.inputs taken at ht
  rw [hi] at ht
  obtain rfl := ht.eq_nil rfl
  exact ⟨given, hg, by rw [List.append_nil]⟩

/-- A fragment whose operands are on top of the stack takes them. -/
theorem Faithful.exists_given_of_operands {f : Fragment} (hf : f.Faithful)
    {base ins σ : List MachineValue} (hi : Operands f.inputs ins) (h : f.Runs (base ++ ins) σ) :
    ∃ given, Operands f.outputs given ∧ σ = base ++ given := by
  obtain ⟨rest, taken, given, ht, hg, he, rfl⟩ := hf _ _ h
  have hlen : ins.length = taken.length :=
    (List.Forall₂.length_eq hi).symm.trans (List.Forall₂.length_eq ht)
  obtain ⟨rfl, -⟩ := List.append_inj' he hlen
  exact ⟨given, hg, rfl⟩

/-! ## Where nothing is buried -/

theorem keepsOperands_of_unburied {target inserted : Fragment} (ht : target.Faithful)
    (hf : inserted.Faithful) (hi : inserted.inputs = [])
    (hn : stackValues target.inputs = [] ∨ stackValues inserted.outputs = []) :
    KeepsOperands target (body (inserted :: target.parts)
      ⟨target.inputs, inserted.outputs ++ target.outputs⟩) := by
  constructor
  · intro before base ins σ hb hins hr
    obtain rfl : [inserted] = before := List.append_cancel_right hb
    obtain ⟨given, hg, rfl⟩ := hf.exists_given hi (runsAll_singleton.mp hr)
    rcases hn with hn | hn
    · rw [hins.eq_nil hn]
      exact List.nil_suffix
    · rw [hg.eq_nil hn, List.append_nil]
      exact List.suffix_append base ins
  · intro base ins σ hins hr
    rw [Runs, RunsAll] at hr
    obtain ⟨between, hr, hr'⟩ := hr
    rw [runsAll_parts] at hr'
    obtain ⟨given, hg, rfl⟩ := hf.exists_given hi hr
    rcases hn with hn | hn
    · obtain rfl := hins.eq_nil hn
      rw [List.append_nil, ← List.append_nil (base ++ given)] at hr'
      obtain ⟨given', hg', rfl⟩ := ht.exists_given_of_operands hins hr'
      exact ⟨given ++ given', hg.append hg', by rw [List.append_assoc]⟩
    · obtain rfl := hg.eq_nil hn
      rw [List.append_nil] at hr'
      obtain ⟨given', hg', rfl⟩ := ht.exists_given_of_operands hins hr'
      exact ⟨given', hg.append hg', rfl⟩

/-! ## Where operands are buried -/

end Fragment

/-- There are two values of each storage class. -/
theorem FlowValue.exists_admits_ne (v : FlowValue) (x : MachineValue) :
    ∃ y, v.Admits y ∧ y ≠ x := by
  have htwo : ∃ y z : MachineValue, v.Admits y ∧ v.Admits z ∧ y ≠ z := by
    unfold FlowValue.Admits
    cases StorageClass.ofType v.type with
    | error e => exact ⟨.int 0, .int 1, nofun, nofun, by decide⟩
    | ok family =>
      simp only [Except.ok.injEq, forall_eq']
      cases family with
      | int => exact ⟨.int 0, .int 1, rfl, rfl, by decide⟩
      | long => exact ⟨.long 0, .long 1, rfl, rfl, by decide⟩
      | float => exact ⟨.float ⟨0⟩, .float ⟨1⟩, rfl, rfl, by decide⟩
      | double => exact ⟨.double ⟨0⟩, .double ⟨1⟩, rfl, rfl, by decide⟩
      | reference =>
        exact ⟨.reference .null, .reference (.object 0), rfl, rfl, by decide⟩
  obtain ⟨y, z, hy, hz, hne⟩ := htwo
  by_cases hx : y = x
  · exact ⟨z, hz, fun he => hne (hx.trans he.symm)⟩
  · exact ⟨y, hy, hx⟩

/-- Operands can be chosen so that the topmost is not a given value. -/
theorem Operands.exists_getLast?_ne {vs : List FlowValue} (hv : stackValues vs ≠ [])
    (x : MachineValue) : ∃ ins, Operands vs ins ∧ ∃ y, ins.getLast? = some y ∧ y ≠ x := by
  unfold Operands
  generalize stackValues vs = ws at hv ⊢
  induction ws with
  | nil => exact (hv rfl).elim
  | cons w ws ih =>
    obtain ⟨y, hy, hne⟩ := w.exists_admits_ne x
    cases ws with
    | nil => exact ⟨[y], .cons hy .nil, y, rfl, hne⟩
    | cons w' ws =>
      obtain ⟨ins, hins, z, hz, hzx⟩ := ih (List.cons_ne_nil _ _)
      refine ⟨y :: ins, .cons hy hins, z, ?_, hzx⟩
      rw [List.getLast?_cons, hz]
      rfl

namespace Fragment

/-- Whatever is put on top of operands buries them. -/
theorem not_keepsOperands_of_buried {target inserted : Fragment} {flow : Flow}
    {given : List MachineValue} (hr : inserted.Runs [] given) (hg : given ≠ [])
    (ht : stackValues target.inputs ≠ []) :
    ¬KeepsOperands target (body (inserted :: target.parts) flow) := by
  intro hk
  obtain ⟨x, hx⟩ := Option.ne_none_iff_exists'.mp (mt List.getLast?_eq_none_iff.mp hg)
  obtain ⟨ins, hins, y, hy, hne⟩ := Operands.exists_getLast?_ne ht x
  have hframe : inserted.Runs (ins ++ []) (ins ++ given) := hr.frame ins
  rw [List.append_nil] at hframe
  obtain ⟨rest, he⟩ :=
    hk.reached [inserted] [] ins _ rfl hins (runsAll_singleton.mpr hframe)
  have hlast := congrArg List.getLast? he
  rw [List.getLast?_append, List.getLast?_append, hy, hx] at hlast
  exact hne (Option.some.inj hlast)

/-- Code before a target that keeps its outputs leaves the operands of the target where they are
    exactly if there are none or it puts nothing on top of them. -/
theorem keepsOperands_iff {target inserted f : Fragment} {options : InsertOptions}
    (h : target.insertBefore inserted options = .ok f) (hd : options.discardOutputs = false)
    (ht : target.Faithful) (hf : (inserted.prepared options).Faithful)
    (hruns : ∃ σ, (inserted.prepared options).Runs [] σ) :
    KeepsOperands target f ↔ stackValues target.inputs = [] ∨
      stackValues (inserted.prepared options).outputs = [] := by
  obtain ⟨hi, rfl⟩ := (insertBefore_eq_ok_iff hd).mp h
  have hi' := (inputs_prepared options inserted).trans hi
  constructor
  · intro hk
    by_contra hn
    obtain ⟨hti, hio⟩ := not_or.mp hn
    obtain ⟨σ, hr⟩ := hruns
    obtain ⟨given, hg, rfl⟩ := hf.exists_given hi' hr
    refine not_keepsOperands_of_buried hr ?_ hti hk
    rintro rfl
    exact hio (List.forall₂_nil_right_iff.mp hg)
  · exact keepsOperands_of_unburied ht hf hi'

/-- A call that leaves a number on the stack. -/
def counterCall : Fragment :=
  call .object "next" [] [⟨.primitive .int, .stack 0, none⟩]

/-- A call that takes an object and a number from the stack. -/
def elementCall : Fragment :=
  call .object "get" [⟨.object, .stack 0, none⟩, ⟨.primitive .int, .stack 1, none⟩]
    [⟨.object, .stack 0, none⟩]

theorem counterCall_runs : counterCall.Runs [] [.int 1] := by
  have hgiven : Operands counterCall.outputs [.int 1] := by
    refine .cons ?_ .nil
    intro family hf
    cases hf
    rfl
  rw [counterCall, call, Runs]
  exact ⟨rfl, [], [], [.int 1], List.Forall₂.nil, hgiven, rfl, rfl⟩

/-- A number stays on the stack under what is pushed for a call without operands. -/
theorem keepsOperands_counterCall :
    ∃ f, counterCall.insertBefore counterCall { discardOutputs := false } = .ok f ∧
      f.outputs =
        [⟨.primitive .int, .stack 0, none⟩, ⟨.primitive .int, .stack 0, none⟩] ∧
      KeepsOperands counterCall f := by
  have hok : counterCall.insertBefore counterCall { discardOutputs := false } = .ok _ := rfl
  have hf : counterCall.Faithful := faithful_leaf _ _
  exact ⟨_, hok, rfl, (keepsOperands_iff hok rfl hf hf ⟨_, counterCall_runs⟩).mpr (.inl rfl)⟩

/-- A number on top of an object and a number is taken for the second of them. -/
theorem not_keepsOperands_elementCall :
    ∃ f, elementCall.insertBefore counterCall { discardOutputs := false } = .ok f ∧
      elementCall.Faithful ∧ counterCall.Faithful ∧ ¬KeepsOperands elementCall f :=
  ⟨_, rfl, faithful_leaf _ _, faithful_leaf _ _,
    not_keepsOperands_of_buried counterCall_runs (List.cons_ne_nil _ _) (List.cons_ne_nil _ _)⟩

end Fragment
end JvmWeave
