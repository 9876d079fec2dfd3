import Mathlib.Data.List.Forall2
import JvmWeave.Fragment.Move

/-!
# What a move plan is made of

Where a value is and where it has to go decide its *route*.  `MovePlan.add` puts one move in front
of a plan, and what it does depends on the route alone: `MovePlan.Adds` lists the routes with all
that each of them adds, and `adds_of_add` and `add_of_adds` say that it lists them all.  Nothing
below this file opens `add` again: what holds of plans is proved by induction on the list of moves,
with one case for each route.
-/

set_option autoImplicit false

namespace JvmWeave

/-- The way of a value from one place to another one. -/
inductive Route where
  /-- It stays on the stack. -/
  | keep
  /-- It is popped into a slot. -/
  | popInto (slot : UInt16)
  /-- It stays in its slot. -/
  | rest (slot : UInt16)
  /-- It goes from one slot to another one. -/
  | carry (a b : UInt16)
  /-- It is loaded onto the stack, where it stays. -/
  | push (slot : UInt16)
  /-- It stays in a field or in an unknown place. -/
  | fixed
  /-- There is no way. -/
  | blocked
  deriving DecidableEq

def FlowValue.routeTo (source target : FlowValue) : Route :=
  match source.location, target.location with
  | .stack _, .stack _ => .keep
  | .stack _, .localSlot slot => .popInto slot
  | .localSlot a, .localSlot b => if a = b then .rest a else .carry a b
  | .localSlot slot, .stack _ => .push slot
  | here, there => if here = there then .fixed else .blocked

/-- What a route says of the places that it joins. -/
def Route.Joins : Route → Location → Location → Prop
  | keep, here, there => (∃ i, here = .stack i) ∧ ∃ j, there = .stack j
  | popInto slot, here, there => (∃ i, here = .stack i) ∧ there = .localSlot slot
  | rest slot, here, there => here = .localSlot slot ∧ there = .localSlot slot
  | carry a b, here, there => here = .localSlot a ∧ there = .localSlot b ∧ a ≠ b
  | push slot, here, there => here = .localSlot slot ∧ ∃ j, there = .stack j
  | fixed, here, there => here = there ∧ (∀ i, here ≠ .stack i) ∧ ∀ slot, here ≠ .localSlot slot
  | blocked, here, there => here ≠ there

theorem FlowValue.joins_routeTo (source target : FlowValue) :
    (source.routeTo target).Joins source.location target.location := by
  unfold routeTo
  cases hs : source.location <;> cases ht : target.location <;> dsimp only
  case localSlot.localSlot a b =>
    split
    · next h => exact ⟨rfl, congrArg _ h.symm⟩
    · next h => exact ⟨rfl, rfl, h⟩
  all_goals
    try split
    all_goals simp_all [Route.Joins]

/-- Values of the type are held in slots. -/
def JavaType.IsStorable (t : JavaType) : Prop :=
  ∃ family, StorageClass.ofType t = .ok family

/-- The slots of a value of a storage class from a slot on, cut off at the last one. -/
def StorageClass.slotsFrom (family : StorageClass) (slot : UInt16) : SlotRange :=
  ⟨slot.toNat, min (slot.toNat + family.width) 65535⟩

theorem SlotRange.exists_of_ofValue {v : FlowValue} {slot : UInt16} {slots : SlotRange}
    (h : SlotRange.ofValue v slot = .ok slots) :
    ∃ family, StorageClass.ofType v.type = .ok family ∧ slots = family.slotsFrom slot := by
  unfold SlotRange.ofValue at h
  cases hf : StorageClass.ofType v.type with
  | error e => rw [hf] at h; cases h
  | ok family =>
    rw [hf] at h
    cases h
    exact ⟨family, rfl, rfl⟩

theorem Instruction.exists_of_storeOf {t : JavaType} {slot : UInt16} {i : Instruction}
    (h : Instruction.storeOf t slot = .ok i) :
    ∃ family, StorageClass.ofType t = .ok family ∧ i = .store family slot := by
  unfold Instruction.storeOf at h
  cases hf : StorageClass.ofType t with
  | error e => rw [hf] at h; cases h
  | ok family =>
    rw [hf] at h
    cases h
    exact ⟨family, rfl, rfl⟩

theorem Instruction.exists_of_loadOf {t : JavaType} {slot : UInt16} {i : Instruction}
    (h : Instruction.loadOf t slot = .ok i) :
    ∃ family, StorageClass.ofType t = .ok family ∧ i = .load family slot := by
  unfold Instruction.loadOf at h
  cases hf : StorageClass.ofType t with
  | error e => rw [hf] at h; cases h
  | ok family =>
    rw [hf] at h
    cases h
    exact ⟨family, rfl, rfl⟩

theorem Instruction.storeOf_eq_ok {t : JavaType} {family : StorageClass} (slot : UInt16)
    (h : StorageClass.ofType t = .ok family) :
    Instruction.storeOf t slot = .ok (.store family slot) := by
  unfold Instruction.storeOf
  rw [h]
  rfl

theorem Instruction.loadOf_eq_ok {t : JavaType} {family : StorageClass} (slot : UInt16)
    (h : StorageClass.ofType t = .ok family) :
    Instruction.loadOf t slot = .ok (.load family slot) := by
  unfold Instruction.loadOf
  rw [h]
  rfl

theorem SlotRange.ofValue_eq_ok {v : FlowValue} {family : StorageClass} (slot : UInt16)
    (h : StorageClass.ofType v.type = .ok family) :
    SlotRange.ofValue v slot = .ok (family.slotsFrom slot) := by
  unfold SlotRange.ofValue
  rw [h]
  rfl

namespace MovePlan

theorem eq_ok_of_storable {α : Type} {x : Except UnstorableType α} {a : α}
    (h : storable x = .ok a) : x = .ok a := by
  cases x with
  | ok b => cases h; rfl
  | error e => cases h

/-- One more move in front of a plan, by the route of its value. -/
inductive Adds (index : Nat) (source target : FlowValue) (plan : MovePlan) : MovePlan → Prop
  | keep (hr : source.routeTo target = .keep) :
      Adds index source target plan { plan with keptOnStack := true }
  | popInto {slot : UInt16} {family : StorageClass} (hr : source.routeTo target = .popInto slot)
      (hk : plan.keptOnStack = false) (hf : StorageClass.ofType target.type = .ok family) :
      Adds index source target plan
        { plan with
          stores := plan.stores ++ [.store family slot]
          stored := plan.stored ++ [(index, family.slotsFrom slot)]
          written := plan.written ++ [(index, family.slotsFrom slot)] }
  | rest {slot : UInt16} {family : StorageClass} (hr : source.routeTo target = .rest slot)
      (hf : StorageClass.ofType target.type = .ok family) :
      Adds index source target plan
        { plan with written := plan.written ++ [(index, family.slotsFrom slot)] }
  | carry {a b : UInt16} {family family' : StorageClass}
      (hr : source.routeTo target = .carry a b)
      (hf : StorageClass.ofType source.type = .ok family)
      (hf' : StorageClass.ofType target.type = .ok family') :
      Adds index source target plan
        { plan with
          written := plan.written ++ [(index, family'.slotsFrom b)]
          read := plan.read ++ [(index, family.slotsFrom a)]
          slotLoads := .load family a :: plan.slotLoads
          slotStores := plan.slotStores ++ [.store family' b] }
  | push {slot : UInt16} {family : StorageClass} (hr : source.routeTo target = .push slot)
      (hf : StorageClass.ofType source.type = .ok family) :
      Adds index source target plan
        { plan with read := plan.read ++ [(index, family.slotsFrom slot)] }
  | fixed (hr : source.routeTo target = .fixed) : Adds index source target plan plan

theorem adds_of_add {plan plan' : MovePlan} {index : Nat} {source target : FlowValue}
    (h : plan.add index source target = .ok plan') : Adds index source target plan plan' := by
  unfold add at h
  simp only [bind, Except.bind, pure, Except.pure, throw, throwThe, MonadExceptOf.throw] at h
  -- One case for each pair of locations, of which that of two slots has two routes.
  split at h
  · next hs ht =>
    cases h
    exact .keep (by simp [FlowValue.routeTo, hs, ht])
  · next i slot hs ht =>
    split at h
    · cases h
    · next hk =>
      split at h
      · cases h
      · next store hst =>
        split at h
        · cases h
        · next slots hsl =>
          cases h
          obtain ⟨f, hf, rfl⟩ := Instruction.exists_of_storeOf (eq_ok_of_storable hst)
          obtain ⟨g, hg, rfl⟩ := SlotRange.exists_of_ofValue (eq_ok_of_storable hsl)
          cases hf.symm.trans hg
          exact .popInto (by simp [FlowValue.routeTo, hs, ht]) (by simpa using hk) hf
  · next a b hs ht =>
    split at h
    · cases h
    · next slots hsl =>
      obtain ⟨f, hf, rfl⟩ := SlotRange.exists_of_ofValue (eq_ok_of_storable hsl)
      split at h
      · next hab =>
        cases h
        cases hab
        exact .rest (by simp [FlowValue.routeTo, hs, ht]) hf
      · next hab =>
        split at h
        · cases h
        · next slots' hsl' =>
          obtain ⟨g, hg, rfl⟩ := SlotRange.exists_of_ofValue (eq_ok_of_storable hsl')
          split at h
          · cases h
          · next load hl =>
            split at h
            · cases h
            · next store hst =>
              cases h
              obtain ⟨f', hf', rfl⟩ := Instruction.exists_of_storeOf (eq_ok_of_storable hst)
              obtain ⟨g', hg', rfl⟩ := Instruction.exists_of_loadOf (eq_ok_of_storable hl)
              cases hf.symm.trans hf'
              cases hg.symm.trans hg'
              exact .carry (by simp [FlowValue.routeTo, hs, ht, hab]) hg hf
  · next slot j hs ht =>
    split at h
    · cases h
    · next slots hsl =>
      cases h
      obtain ⟨f, hf, rfl⟩ := SlotRange.exists_of_ofValue (eq_ok_of_storable hsl)
      exact .push (by simp [FlowValue.routeTo, hs, ht]) hf
  · -- All that is left are fields and other places, which stay or are refused.
    next h₁ h₂ h₃ h₄ =>
    split at h
    · next heq =>
      cases h
      refine .fixed ?_
      unfold FlowValue.routeTo
      split
      · next hs ht => exact (h₁ _ _ hs ht).elim
      · next hs ht => exact (h₂ _ _ hs ht).elim
      · next hs ht => exact (h₃ _ _ hs ht).elim
      · next hs ht => exact (h₄ _ _ hs ht).elim
      · exact if_pos heq
    · cases h

/-- Each of the routes is taken. -/
theorem add_of_adds {plan plan' : MovePlan} {index : Nat} {source target : FlowValue}
    (h : Adds index source target plan plan') : plan.add index source target = .ok plan' := by
  have hj := source.joins_routeTo target
  unfold add
  cases h with
  | keep hr =>
    rw [hr] at hj
    obtain ⟨⟨i, hs⟩, j, ht⟩ := hj
    rw [hs, ht]
    rfl
  | popInto hr hk hf =>
    rw [hr] at hj
    obtain ⟨⟨i, hs⟩, ht⟩ := hj
    rw [hs, ht]
    dsimp only
    rw [hk, Instruction.storeOf_eq_ok _ hf, SlotRange.ofValue_eq_ok _ hf]
    rfl
  | rest hr hf =>
    rw [hr] at hj
    obtain ⟨hs, ht⟩ := hj
    rw [hs, ht]
    dsimp only
    rw [SlotRange.ofValue_eq_ok _ hf]
    exact if_pos rfl
  | carry hr hf hf' =>
    rw [hr] at hj
    obtain ⟨hs, ht, hne⟩ := hj
    rw [hs, ht]
    dsimp only
    rw [SlotRange.ofValue_eq_ok _ hf, SlotRange.ofValue_eq_ok _ hf',
      Instruction.loadOf_eq_ok _ hf, Instruction.storeOf_eq_ok _ hf']
    exact if_neg hne
  | push hr hf =>
    rw [hr] at hj
    obtain ⟨hs, j, ht⟩ := hj
    rw [hs, ht]
    dsimp only
    rw [SlotRange.ofValue_eq_ok _ hf]
    rfl
  | fixed hr =>
    rw [hr] at hj
    obtain ⟨he, hst, hsl⟩ := hj
    rw [← he]
    cases hs : source.location with
    | stack i => exact (hst i hs).elim
    | localSlot slot => exact (hsl slot hs).elim
    | field owner name =>
      exact if_pos rfl
    | other name =>
      exact if_pos rfl

/-- A value without a way is refused. -/
theorem add_of_blocked {plan : MovePlan} {index : Nat} {source target : FlowValue}
    (hr : source.routeTo target = .blocked) :
    plan.add index source target = .error (.unbindable index) := by
  unfold FlowValue.routeTo at hr
  unfold add
  cases hs : source.location <;> cases ht : target.location <;> rw [hs, ht] at hr <;>
    dsimp only at hr
  case stack.stack => cases hr
  case stack.localSlot => cases hr
  case localSlot.stack => cases hr
  case localSlot.localSlot => split at hr <;> cases hr
  all_goals
    refine if_neg fun heq => ?_
    rw [if_pos heq] at hr
    cases hr

/-- So is a value that would have to be popped from beneath another one. -/
theorem add_of_buried {plan : MovePlan} {index : Nat} {source target : FlowValue} {slot : UInt16}
    (hr : source.routeTo target = .popInto slot) (hk : plan.keptOnStack = true) :
    plan.add index source target = .error (.unbindable index) := by
  have hj := source.joins_routeTo target
  rw [hr] at hj
  obtain ⟨⟨i, hs⟩, ht⟩ := hj
  unfold add
  rw [hs, ht]
  exact if_pos hk

/-- The plan of a list of moves comes from the plan of the moves behind the first. -/
theorem ofPairs_cons (index : Nat) (p : FlowValue × FlowValue)
    (pairs : List (FlowValue × FlowValue)) :
    ofPairs index (p :: pairs) =
      (ofPairs (index + 1) pairs).bind fun plan => plan.add index p.1 p.2 := by
  obtain ⟨s, t⟩ := p
  rw [ofPairs]
  cases ofPairs (index + 1) pairs <;> rfl

theorem exists_of_ofPairs {index : Nat} {source target : FlowValue}
    {rest : List (FlowValue × FlowValue)} {plan : MovePlan}
    (h : ofPairs index ((source, target) :: rest) = .ok plan) :
    ∃ plan', ofPairs (index + 1) rest = .ok plan' ∧ Adds index source target plan' plan := by
  rw [ofPairs_cons] at h
  cases hp : ofPairs (index + 1) rest with
  | error e =>
    rw [hp] at h
    cases h
  | ok plan' =>
    rw [hp] at h
    exact ⟨plan', rfl, adds_of_add h⟩

theorem ofPairs_of_adds {index : Nat} {source target : FlowValue}
    {rest : List (FlowValue × FlowValue)} {plan plan' : MovePlan}
    (hp : ofPairs (index + 1) rest = .ok plan) (ha : Adds index source target plan plan') :
    ofPairs index ((source, target) :: rest) = .ok plan' := by
  rw [ofPairs_cons, hp]
  exact add_of_adds ha

theorem Adds.unblocked {index : Nat} {source target : FlowValue} {plan plan' : MovePlan}
    (h : Adds index source target plan plan') : source.routeTo target ≠ .blocked := by
  intro hb
  cases h <;> simp_all

theorem unblocked_of_ofPairs {index : Nat} {pairs : List (FlowValue × FlowValue)}
    {plan : MovePlan} (h : ofPairs index pairs = .ok plan) :
    ∀ p ∈ pairs, p.1.routeTo p.2 ≠ .blocked := by
  induction pairs generalizing index plan with
  | nil => simp
  | cons p pairs ih =>
    obtain ⟨plan', hp, ha⟩ := exists_of_ofPairs h
    exact List.forall_mem_cons.mpr ⟨ha.unblocked, ih hp⟩

/-- A plan without stores and loads moves nothing, but for what is pushed. -/
theorem stays_of_ofPairs {index : Nat} {pairs : List (FlowValue × FlowValue)} {plan : MovePlan}
    (h : ofPairs index pairs = .ok plan) (hs : plan.stores = []) (hl : plan.slotLoads = []) :
    ∀ p ∈ pairs, ∀ a b, p.1.routeTo p.2 ≠ .popInto a ∧ p.1.routeTo p.2 ≠ .carry a b := by
  induction pairs generalizing index plan with
  | nil => simp
  | cons p pairs ih =>
    obtain ⟨plan', hp, ha⟩ := exists_of_ofPairs h
    cases ha with
    | popInto => simp at hs
    | carry => simp at hl
    | _ hr =>
      refine List.forall_mem_cons.mpr ⟨fun a b => ?_, ih hp hs hl⟩
      rw [hr]
      exact ⟨nofun, nofun⟩

/-- What is loaded to stay on the stack depends on the routes alone. -/
theorem stackLoads_cons (loaded : Bool) (index : Nat) (p : FlowValue × FlowValue)
    (pairs : List (FlowValue × FlowValue)) :
    stackLoads loaded index (p :: pairs) =
      match p.1.routeTo p.2 with
      | .push slot => (storable (Instruction.loadOf p.1.type slot)).bind fun load =>
          (stackLoads true (index + 1) pairs).map (load :: ·)
      | .keep => if loaded then .error (.unbindable index) else stackLoads loaded (index + 1) pairs
      | _ => stackLoads loaded (index + 1) pairs := by
  obtain ⟨source, target⟩ := p
  rw [stackLoads]
  unfold FlowValue.routeTo
  cases source.location <;> cases target.location <;> dsimp only
  case localSlot.stack slot j =>
    cases storable (Instruction.loadOf source.type slot) with
    | error e => rfl
    | ok load => cases stackLoads true (index + 1) pairs <;> rfl
  case stack.stack => cases loaded <;> rfl
  case localSlot.localSlot => split_ifs <;> rfl
  case field.field => split_ifs <;> rfl
  case other.other => split_ifs <;> rfl
  all_goals rfl

/-- The first move of a list adds a load if its value is pushed.  If its value is kept, there was no
    load before. -/
theorem exists_of_stackLoads {loaded : Bool} {index : Nat} {p : FlowValue × FlowValue}
    {pairs : List (FlowValue × FlowValue)} {loads : List Instruction}
    (h : stackLoads loaded index (p :: pairs) = .ok loads) :
    (∃ slot family rest, p.1.routeTo p.2 = .push slot ∧
      StorageClass.ofType p.1.type = .ok family ∧ loads = .load family slot :: rest ∧
        stackLoads true (index + 1) pairs = .ok rest) ∨
    (p.1.routeTo p.2 = .keep ∧ loaded = false ∧ stackLoads false (index + 1) pairs = .ok loads) ∨
    ((∀ slot, p.1.routeTo p.2 ≠ .push slot) ∧ p.1.routeTo p.2 ≠ .keep ∧
      stackLoads loaded (index + 1) pairs = .ok loads) := by
  rw [stackLoads_cons] at h
  cases hr : p.1.routeTo p.2 <;> rw [hr] at h <;> dsimp only at h
  case push slot =>
    cases hl : storable (Instruction.loadOf p.1.type slot) with
    | error e => rw [hl] at h; cases h
    | ok load =>
      obtain ⟨family, hf, rfl⟩ := Instruction.exists_of_loadOf (eq_ok_of_storable hl)
      rw [hl] at h
      cases hrest : stackLoads true (index + 1) pairs with
      | error e => rw [hrest] at h; cases h
      | ok rest =>
        rw [hrest] at h
        cases h
        exact .inl ⟨slot, family, rest, rfl, hf, rfl, rfl⟩
  case keep =>
    cases loaded with
    | true => cases h
    | false => exact .inr (.inl ⟨rfl, rfl, h⟩)
  all_goals exact .inr (.inr ⟨nofun, nofun, h⟩)

/-- Nothing is pushed without a load. -/
theorem unpushed_of_stackLoads {loaded : Bool} {index : Nat}
    {pairs : List (FlowValue × FlowValue)} (h : stackLoads loaded index pairs = .ok []) :
    ∀ p ∈ pairs, ∀ slot, p.1.routeTo p.2 ≠ .push slot := by
  induction pairs generalizing loaded index with
  | nil => simp
  | cons p pairs ih =>
    obtain ⟨slot, family, rest, -, -, hl, -⟩ | ⟨hr, -, hrest⟩ | ⟨hr, -, hrest⟩ :=
      exists_of_stackLoads h
    · cases hl
    · refine List.forall_mem_cons.mpr ⟨fun slot hp => ?_, ih hrest⟩
      cases hr.symm.trans hp
    · exact List.forall_mem_cons.mpr ⟨hr, ih hrest⟩

/-- Every instruction is made for slots of the list. -/
def Accounted (make : StorageClass → UInt16 → Instruction) (is : List Instruction)
    (slots : List (Nat × SlotRange)) : Prop :=
  ∀ i ∈ is, ∃ family slot index, i = make family slot ∧ (index, family.slotsFrom slot) ∈ slots

namespace Accounted

variable {make : StorageClass → UInt16 → Instruction} {is : List Instruction}
  {slots : List (Nat × SlotRange)} {family : StorageClass} {slot : UInt16} {index : Nat}

theorem nil : Accounted make [] slots := List.forall_mem_nil _

theorem append (h : Accounted make is slots) (more : List (Nat × SlotRange)) :
    Accounted make is (slots ++ more) := by
  intro i hi
  obtain ⟨family, slot, index, he, hm⟩ := h i hi
  exact ⟨family, slot, index, he, List.mem_append_left _ hm⟩

theorem cons (h : Accounted make is slots) (hm : (index, family.slotsFrom slot) ∈ slots) :
    Accounted make (make family slot :: is) slots :=
  List.forall_mem_cons.mpr ⟨⟨family, slot, index, rfl, hm⟩, h⟩

theorem concat (h : Accounted make is slots) (hm : (index, family.slotsFrom slot) ∈ slots) :
    Accounted make (is ++ [make family slot]) slots := by
  intro i hi
  rcases List.mem_append.mp hi with hi | hi
  · exact h i hi
  · exact ⟨family, slot, index, List.mem_singleton.mp hi, hm⟩

end Accounted

/-- The plan lists the slots of the loads and stores that it is made of. -/
structure Accounts (plan : MovePlan) : Prop where
  stores : Accounted .store plan.stores plan.stored
  slotLoads : Accounted .load plan.slotLoads plan.read
  slotStores : Accounted .store plan.slotStores plan.written

theorem Accounts.of_adds {index : Nat} {source target : FlowValue} {plan plan' : MovePlan}
    (h : plan.Accounts) (ha : Adds index source target plan plan') : plan'.Accounts := by
  obtain ⟨hst, hl, hs⟩ := h
  cases ha with
  | keep | fixed => exact ⟨hst, hl, hs⟩
  | rest => exact ⟨hst, hl, hs.append _⟩
  | popInto => exact ⟨(hst.append _).concat List.mem_concat_self, hl, hs.append _⟩
  | carry =>
    exact ⟨hst, (hl.append _).cons List.mem_concat_self, (hs.append _).concat List.mem_concat_self⟩
  | push => exact ⟨hst, hl.append _, hs⟩

theorem accounts_of_ofPairs {index : Nat} {pairs : List (FlowValue × FlowValue)} {plan : MovePlan}
    (h : ofPairs index pairs = .ok plan) : plan.Accounts := by
  induction pairs generalizing index plan with
  | nil =>
    cases h
    exact ⟨.nil, .nil, .nil⟩
  | cons p pairs ih =>
    obtain ⟨plan', hp, ha⟩ := exists_of_ofPairs h
    exact (ih hp).of_adds ha

/-- The slots of what is pushed are among those that are read. -/
theorem accounted_of_stackLoads {loaded : Bool} {index : Nat}
    {pairs : List (FlowValue × FlowValue)} {plan : MovePlan} {loads : List Instruction}
    (hp : ofPairs index pairs = .ok plan) (hl : stackLoads loaded index pairs = .ok loads) :
    Accounted .load loads plan.read := by
  induction pairs generalizing loaded index plan loads with
  | nil =>
    cases hl
    exact .nil
  | cons p pairs ih =>
    obtain ⟨plan', hp', ha⟩ := exists_of_ofPairs hp
    obtain ⟨slot, family, rest, hr, hf, rfl, hrest⟩ | ⟨hr, -, hrest⟩ | ⟨hpush, -, hrest⟩ :=
      exists_of_stackLoads hl
    all_goals have hread := ih hp' hrest
    · cases ha with
      | push hr' hf' =>
        cases hr.symm.trans hr'
        cases hf.symm.trans hf'
        exact (hread.append _).cons List.mem_concat_self
      | _ hr' => cases hr.symm.trans hr'
    · cases ha with
      | keep => exact hread
      | _ hr' => cases hr.symm.trans hr'
    · cases ha with
      | push hr' => exact (hpush _ hr').elim
      | carry => exact hread.append _
      | _ => exact hread

/-- A move goes through four parts. -/
theorem moveInstructions_eq (source target : List FlowValue) :
    moveInstructions source target = (ofPairs 0 (source.zip target)).bind fun plan =>
      match collision? plan.written with
      | some index => .error (.unbindable index)
      | none => (stackLoads false 0 (source.zip target)).bind plan.instructions := by
  unfold moveInstructions
  dsimp only [bind, throw, throwThe, MonadExceptOf.throw]
  refine congrArg _ (funext fun plan => ?_)
  cases collision? plan.written <;> rfl

theorem moveInstructions_eq_ok_iff {source target : List FlowValue} {is : List Instruction} :
    moveInstructions source target = .ok is ↔ ∃ plan loads,
      ofPairs 0 (source.zip target) = .ok plan ∧ collision? plan.written = none ∧
        stackLoads false 0 (source.zip target) = .ok loads ∧
          plan.instructions loads = .ok is := by
  rw [moveInstructions_eq]
  cases ofPairs 0 (source.zip target) with
  | error e => simp [Except.bind]
  | ok plan =>
    cases hc : collision? plan.written with
    | some index => simp [Except.bind, hc]
    | none => cases stackLoads false 0 (source.zip target) <;> simp [Except.bind, hc]

/-- The stores come first, unless one of them meets a slot that is read; then they come last, and
    nothing is pushed. -/
theorem orders_of_instructions {plan : MovePlan} {loads is : List Instruction}
    (h : plan.instructions loads = .ok is) :
    (plan.clobbering? = none ∧ is = plan.stores ++ loads ++ plan.slotLoads ++ plan.slotStores) ∨
      (loads = [] ∧ is = plan.slotLoads ++ plan.slotStores ++ plan.stores) := by
  unfold instructions at h
  split at h
  · next hc =>
    cases h
    exact .inl ⟨hc, rfl⟩
  · split at h
    · next hl =>
      cases h
      exact .inr ⟨hl, rfl⟩
    · cases h

theorem empty_of_instructions {plan : MovePlan} {loads : List Instruction}
    (h : plan.instructions loads = .ok []) :
    plan.stores = [] ∧ plan.slotLoads = [] ∧ loads = [] := by
  rcases orders_of_instructions h with ⟨-, he⟩ | ⟨hl, he⟩
  · simp_all
  · simp_all

end MovePlan

/-- Code that moves values is a run of the instructions that do so, if there are any. -/
theorem moveValues_eq (source target : List FlowValue) :
    moveValues source target = (moveInstructions source target).map fun is =>
      if is = [] then none else some (Fragment.run is source target) := by
  unfold moveValues
  cases moveInstructions source target with
  | error e => rfl
  | ok is =>
    simp only [bind, Except.bind, Except.map]
    split <;> rfl

theorem moveValues_eq_ok_iff {source target : List FlowValue} {code : Option Fragment} :
    moveValues source target = .ok code ↔ ∃ is, moveInstructions source target = .ok is ∧
      code = if is = [] then none else some (Fragment.run is source target) := by
  rw [moveValues_eq]
  cases moveInstructions source target <;> simp [Except.map, eq_comm]

/-! ## Targets of other types -/

/-- The same place, and a type of the same storage class, if the first type has one. -/
structure FlowValue.SameSlots (v w : FlowValue) : Prop where
  location : w.location = v.location
  family : ∀ family, StorageClass.ofType v.type = .ok family →
    StorageClass.ofType w.type = .ok family

namespace MovePlan

theorem Adds.of_sameSlots {index : Nat} {source target target' : FlowValue}
    {plan plan' : MovePlan} (h : Adds index source target plan plan')
    (ht : target.SameSlots target') : Adds index source target' plan plan' := by
  have hr : source.routeTo target' = source.routeTo target := by
    unfold FlowValue.routeTo
    rw [ht.location]
  cases h with
  | keep h => exact .keep (hr.trans h)
  | popInto h hk hf => exact .popInto (hr.trans h) hk (ht.family _ hf)
  | rest h hf => exact .rest (hr.trans h) (ht.family _ hf)
  | carry h hf hf' => exact .carry (hr.trans h) hf (ht.family _ hf')
  | push h hf => exact .push (hr.trans h) hf
  | fixed h => exact .fixed (hr.trans h)

theorem ofPairs_of_sameSlots {source target target' : List FlowValue} {index : Nat}
    {plan : MovePlan} (ht : List.Forall₂ FlowValue.SameSlots target target')
    (h : ofPairs index (source.zip target) = .ok plan) :
    ofPairs index (source.zip target') = .ok plan := by
  induction ht generalizing source index plan with
  | nil => exact h
  | cons hv _ ih =>
    cases source with
    | nil => exact h
    | cons s source =>
      obtain ⟨plan', hp, ha⟩ := exists_of_ofPairs h
      exact ofPairs_of_adds (ih hp) (ha.of_sameSlots hv)

theorem stackLoads_of_sameSlots {source target target' : List FlowValue} (loaded : Bool)
    (index : Nat) (ht : List.Forall₂ FlowValue.SameSlots target target') :
    stackLoads loaded index (source.zip target') = stackLoads loaded index (source.zip target) := by
  induction ht generalizing source loaded index with
  | nil => rfl
  | cons hv _ ih =>
    cases source with
    | nil => rfl
    | cons s source =>
      rw [List.zip_cons_cons, List.zip_cons_cons, stackLoads, stackLoads, hv.location]
      simp only [ih]

end MovePlan

/-- Moves ask for the storage classes of their targets and not for more of their types. -/
theorem moveInstructions_of_sameSlots {source target target' : List FlowValue}
    {is : List Instruction} (ht : List.Forall₂ FlowValue.SameSlots target target')
    (h : moveInstructions source target = .ok is) : moveInstructions source target' = .ok is := by
  obtain ⟨plan, loads, hp, hc, hl, hi⟩ := MovePlan.moveInstructions_eq_ok_iff.mp h
  exact MovePlan.moveInstructions_eq_ok_iff.mpr ⟨plan, loads,
    MovePlan.ofPairs_of_sameSlots ht hp, hc,
    (MovePlan.stackLoads_of_sameSlots false 0 ht).trans hl, hi⟩

end JvmWeave
