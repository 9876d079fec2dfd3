import JvmWeave.Proofs.UnbindableMoves

/-!
# Slots up to the last one

Moves compare the slots of values to see whether two values are sent to one slot, and whether a
store from the stack has to wait for a load.  The slots of a value are a range up to the slot behind
them, and there is no slot behind `lastSlot`: the range of a value that takes the last slot stops
short of it, and is empty for a value that starts there.  So ranges overlap exactly if the values
share a slot and neither of them starts at the last one (`overlaps_slotsFrom_iff`; a wide value that
ends there shares its first slot with all others that it meets, unless they start at the last one).

What the comparisons are for holds under the same condition and under no weaker one: no move sends
both values to their slots exactly if the ranges overlap (`excludes_iff`), and no move stores the
one value before it loads the other exactly if they do (`neverBefore_iff`).
-/

set_option autoImplicit false

namespace JvmWeave

open MachineState MovePlan

/-- The local slot with the largest number. -/
def lastSlot : UInt16 := 65535

namespace FlowValue

abbrev inSlot (v : FlowValue) (slot : UInt16) : FlowValue :=
  v.movedTo (.localSlot slot)

/-- No move sends both values to their places.  If all types are storable, that is because of one of
    the values. -/
def Excludes (v w : FlowValue) : Prop :=
  ∀ source target : List FlowValue, source.length = target.length → [v, w].Sublist target →
    ∃ e, moveValues source target = .error e ∧
      ((∀ u ∈ source ++ target, u.type.IsStorable) → ∃ index, e = .unbindable index)

end FlowValue

/-- The first instruction comes before the second one in the code of no move. -/
def Instruction.NeverBefore (i j : Instruction) : Prop :=
  ∀ source target code, moveValues source target = .ok code →
    ¬[i, j].Sublist (instructionsOf code)

/-! ## Ranges of slots -/

theorem SlotRange.overlaps_comm (x y : SlotRange) : x.overlaps y = y.overlaps x :=
  Bool.and_comm _ _

/-- Ranges overlap exactly if the slots do and none of the values is at the last slot. -/
theorem overlaps_slotsFrom_iff (f g : StorageClass) (s t : UInt16) :
    (f.slotsFrom s).overlaps (g.slotsFrom t) = true ↔
      (s.toNat < t.toNat + g.width ∧ t.toNat < s.toNat + f.width) ∧
        s ≠ lastSlot ∧ t ≠ lastSlot := by
  have hs : s.toNat < 65536 := s.toNat_lt
  have ht : t.toNat < 65536 := t.toNat_lt
  have hlast : lastSlot.toNat = 65535 := rfl
  unfold SlotRange.overlaps StorageClass.slotsFrom
  rw [Bool.and_eq_true, decide_eq_true_eq, decide_eq_true_eq, ← UInt16.toNat_inj.ne,
    ← UInt16.toNat_inj.ne, hlast]
  dsimp only
  omega

namespace FlowValue

theorem meets_inSlot_iff {a b : FlowValue} {f g : StorageClass}
    (ha : StorageClass.ofType a.type = .ok f) (hb : StorageClass.ofType b.type = .ok g)
    (s t : UInt16) :
    (a.inSlot s).Meets (b.inSlot t) ↔
      s.toNat < t.toNat + g.width ∧ t.toNat < s.toNat + f.width := by
  obtain ⟨x, rfl⟩ := f.exists_value
  obtain ⟨y, rfl⟩ := g.exists_value
  have h : (a.inSlot s).Meets (b.inSlot t) ↔ ¬Apart (s, x) (t, y) := by
    rw [meets_iff (v := a.inSlot s) (w := b.inSlot t) ha hb]
    constructor
    · intro ⟨s', t', hs, ht, h⟩
      cases hs
      cases ht
      exact h
    · intro h
      exact ⟨s, t, rfl, rfl, h⟩
  rw [h]
  unfold Apart MachineValue.width
  dsimp only
  omega

end FlowValue

/-! ## The slots that a move sends values to -/

namespace FlowValue

/-- The slots that the value is taken to lie in, if it is in a local slot. -/
def slots? (v : FlowValue) : Option SlotRange :=
  match v.location with
  | .localSlot slot => (SlotRange.ofValue v slot).toOption
  | _ => none

theorem slots?_of_localSlot {v : FlowValue} {slot : UInt16} {family : StorageClass}
    (hl : v.location = .localSlot slot) (hf : StorageClass.ofType v.type = .ok family) :
    v.slots? = some (family.slotsFrom slot) := by
  unfold slots?
  rw [hl]
  dsimp only
  rw [SlotRange.ofValue_eq_ok slot hf]
  rfl

theorem slots?_of_ne {v : FlowValue} (h : ∀ slot, v.location ≠ .localSlot slot) :
    v.slots? = none := by
  unfold slots?
  cases hl : v.location with
  | localSlot slot => exact (h slot hl).elim
  | _ => rfl

end FlowValue

namespace MovePlan

/-- One more move adds the slots of its target to those that hold a value at the end. -/
theorem Adds.written_eq {index : Nat} {source target : FlowValue} {plan plan' : MovePlan}
    (h : Adds index source target plan plan') :
    plan'.written.map Prod.snd = plan.written.map Prod.snd ++ target.slots?.toList := by
  have hj := source.joins_routeTo target
  cases h with
  | keep hr | push hr =>
    rw [hr] at hj
    obtain ⟨-, j, ht⟩ := hj
    rw [FlowValue.slots?_of_ne fun slot hl => by cases ht.symm.trans hl]
    simp
  | popInto hr _ hf =>
    rw [hr] at hj
    rw [FlowValue.slots?_of_localSlot hj.2 hf]
    simp
  | rest hr hf =>
    rw [hr] at hj
    rw [FlowValue.slots?_of_localSlot hj.2 hf]
    simp
  | carry hr _ hf =>
    rw [hr] at hj
    rw [FlowValue.slots?_of_localSlot hj.2.1 hf]
    simp
  | fixed hr =>
    rw [hr] at hj
    obtain ⟨he, -, hne⟩ := hj
    rw [FlowValue.slots?_of_ne fun slot hl => hne slot (he.trans hl)]
    simp

/-- A plan knows the slots of all targets, those of the last target first. -/
theorem written_of_ofPairs {index : Nat} {pairs : List (FlowValue × FlowValue)} {plan : MovePlan}
    (h : ofPairs index pairs = .ok plan) :
    plan.written.map Prod.snd = (pairs.filterMap fun p => p.2.slots?).reverse := by
  induction pairs generalizing index plan with
  | nil =>
    cases h
    rfl
  | cons p pairs ih =>
    obtain ⟨plan', hp, ha⟩ := exists_of_ofPairs h
    rw [ha.written_eq, ih hp, List.filterMap_cons]
    cases p.2.slots? <;> simp

/-- No two targets of a move have ranges that overlap. -/
theorem pairwise_slots_of_moveInstructions {source target : List FlowValue}
    {is : List Instruction} (hlen : source.length = target.length)
    (h : moveInstructions source target = .ok is) :
    (target.filterMap FlowValue.slots?).Pairwise fun x y => x.overlaps y = false := by
  obtain ⟨plan, loads, hp, hc, -, -⟩ := moveInstructions_eq_ok_iff.mp h
  have hzip : (source.zip target).filterMap (fun p => p.2.slots?) =
      target.filterMap FlowValue.slots? := by
    conv_rhs => rw [← List.map_snd_zip (Nat.le_of_eq hlen.symm), List.filterMap_map]
    rfl
  have hw := collision?_eq_none_iff.mp hc
  rw [written_of_ofPairs hp, List.pairwise_reverse, hzip] at hw
  exact hw.imp fun hxy => (SlotRange.overlaps_comm _ _).trans hxy

/-- A move of storable values fails for one of them. -/
theorem unbindable_of_moveInstructions {source target : List FlowValue} {e : MoveError}
    (hs : ∀ v ∈ source ++ target, v.type.IsStorable)
    (h : moveInstructions source target = .error e) : ∃ index, e = .unbindable index := by
  obtain ⟨hss, hst⟩ := List.forall_mem_append.mp hs
  have hm : ∀ p ∈ source.zip target, Move.IsStorable p := fun p hp =>
    ⟨hss _ (List.of_mem_zip hp).1, hst _ (List.of_mem_zip hp).2⟩
  rw [moveInstructions_eq] at h
  cases hp : ofPairs 0 (source.zip target) with
  | error e' =>
    rw [hp] at h
    cases h
    exact (decides_ofPairs 0 hm).unbindable hp
  | ok plan =>
    rw [hp] at h
    dsimp only [Except.bind] at h
    cases hc : collision? plan.written with
    | some index =>
      rw [hc] at h
      cases h
      exact ⟨index, rfl⟩
    | none =>
      rw [hc] at h
      dsimp only at h
      cases hl : stackLoads false 0 (source.zip target) with
      | error e' =>
        rw [hl] at h
        cases h
        exact (decides_stackLoads false 0 hm).unbindable hl
      | ok loads =>
        rw [hl] at h
        exact (decides_instructions plan loads).unbindable h

end MovePlan

/-- Values whose ranges overlap are refused. -/
theorem FlowValue.excludes_of_overlaps {v w : FlowValue} {x y : SlotRange} (hv : v.slots? = some x)
    (hw : w.slots? = some y) (h : x.overlaps y = true) : v.Excludes w := by
  intro source target hlen hsub
  cases hi : moveInstructions source target with
  | error e =>
    refine ⟨e, ?_, fun hs => unbindable_of_moveInstructions hs hi⟩
    rw [moveValues_eq, hi]
    rfl
  | ok is =>
    have hxy : [x, y].Sublist (target.filterMap slots?) := by
      simpa [hv, hw] using hsub.filterMap slots?
    have hn := (pairwise_slots_of_moveInstructions hlen hi).forall_sublist hxy
    cases h.symm.trans hn

/-! ## The stores that come before loads -/

namespace MovePlan

/-- The first instruction stores into slots that the second one reads. -/
def Spoils (i j : Instruction) : Prop :=
  ∃ f s g t, i = .store f s ∧ j = .load g t ∧ (f.slotsFrom s).overlaps (g.slotsFrom t) = true

theorem Accounted.not_spoils_of_load {is : List Instruction} {slots : List (Nat × SlotRange)}
    (h : Accounted .load is slots) : ∀ i ∈ is, ∀ j, ¬Spoils i j := by
  intro i hi j hij
  obtain ⟨family, slot, index, rfl, -⟩ := h i hi
  obtain ⟨f, s, g, t, hs, -, -⟩ := hij
  cases hs

theorem Accounted.not_spoils_of_store {is : List Instruction} {slots : List (Nat × SlotRange)}
    (h : Accounted .store is slots) : ∀ j ∈ is, ∀ i, ¬Spoils i j := by
  intro j hj i hij
  obtain ⟨family, slot, index, rfl, -⟩ := h j hj
  obtain ⟨f, s, g, t, -, hl, -⟩ := hij
  cases hl

/-- Stores spoil no loads of slots that are apart from theirs. -/
theorem Accounted.not_spoils {is js : List Instruction} {stored read : List (Nat × SlotRange)}
    (hs : Accounted .store is stored) (hl : Accounted .load js read)
    (h : ∀ x ∈ stored, ∀ y ∈ read, x.2.overlaps y.2 = false) :
    ∀ i ∈ is, ∀ j ∈ js, ¬Spoils i j := by
  intro i hi j hj hij
  obtain ⟨f, s, m, rfl, hm⟩ := hs i hi
  obtain ⟨g, t, n, rfl, hn⟩ := hl j hj
  obtain ⟨f', s', g', t', hst, hld, ho⟩ := hij
  cases hst
  cases hld
  cases ho.symm.trans (h _ hm _ hn)

/-- In the code of a move no store spoils a load that comes after it. -/
theorem pairwise_not_spoils {source target : List FlowValue} {is : List Instruction}
    (h : moveInstructions source target = .ok is) : is.Pairwise fun i j => ¬Spoils i j := by
  obtain ⟨plan, loads, hp, -, hl, hi⟩ := moveInstructions_eq_ok_iff.mp h
  obtain ⟨hst, hsl, hss⟩ := accounts_of_ofPairs hp
  have hld := accounted_of_stackLoads hp hl
  have hstores : plan.stores.Pairwise fun i j => ¬Spoils i j :=
    List.pairwise_of_forall_mem_list fun i _ j hj => hst.not_spoils_of_store j hj i
  have hslotLoads : plan.slotLoads.Pairwise fun i j => ¬Spoils i j :=
    List.pairwise_of_forall_mem_list fun i hi j _ => hsl.not_spoils_of_load i hi j
  have hslotStores : plan.slotStores.Pairwise fun i j => ¬Spoils i j :=
    List.pairwise_of_forall_mem_list fun i _ j hj => hss.not_spoils_of_store j hj i
  rcases orders_of_instructions hi with ⟨hc, rfl⟩ | ⟨-, rfl⟩
  · have happart := clobbering?_eq_none_iff.mp hc
    have hloads : loads.Pairwise fun i j => ¬Spoils i j :=
      List.pairwise_of_forall_mem_list fun i hi j _ => hld.not_spoils_of_load i hi j
    rw [List.pairwise_append, List.pairwise_append, List.pairwise_append]
    refine ⟨⟨⟨hstores, hloads, hst.not_spoils hld happart⟩, hslotLoads, ?_⟩, hslotStores, ?_⟩
    · rw [List.forall_mem_append]
      exact ⟨hst.not_spoils hsl happart, fun i hi j _ => hld.not_spoils_of_load i hi j⟩
    · exact fun i _ j hj => hss.not_spoils_of_store j hj i
  · rw [List.pairwise_append, List.pairwise_append]
    exact ⟨⟨hslotLoads, hslotStores, fun i hi j _ => hsl.not_spoils_of_load i hi j⟩, hstores,
      fun i _ j hj => hst.not_spoils_of_store j hj i⟩

/-! ## Moves of two values -/

theorem moveInstructions_of_moveValues {source target : List FlowValue} {code : Option Fragment}
    (h : moveValues source target = .ok code) :
    moveInstructions source target = .ok (instructionsOf code) := by
  obtain ⟨is, hi, rfl⟩ := moveValues_eq_ok_iff.mp h
  rw [hi]
  split
  · next hnil =>
    rw [hnil]
    rfl
  · rfl

section TwoValues

variable {a b : FlowValue} {f g : StorageClass} {s t : UInt16}

/-- Two values are popped into slots, the one on top first. -/
theorem moveInstructions_pop_pop (ha : StorageClass.ofType a.type = .ok f)
    (hb : StorageClass.ofType b.type = .ok g)
    (h : (f.slotsFrom s).overlaps (g.slotsFrom t) = false) :
    moveInstructions [a.movedTo (.stack 0), b.movedTo (.stack 1)] [a.inSlot s, b.inSlot t] =
      .ok [.store g t, .store f s] := by
  have hplan : ofPairs 1 [(b.movedTo (.stack 1), b.inSlot t)] = _ :=
    ofPairs_of_adds rfl (.popInto rfl rfl hb)
  refine moveInstructions_eq_ok_iff.mpr
    ⟨_, [], ofPairs_of_adds hplan (.popInto rfl rfl ha), ?_, rfl, rfl⟩
  rw [collision?_eq_none_iff]
  simpa using (SlotRange.overlaps_comm _ _).trans h

/-- One value is popped into a slot, and then the other one is pushed. -/
theorem moveInstructions_pop_push (ha : StorageClass.ofType a.type = .ok f)
    (hb : StorageClass.ofType b.type = .ok g)
    (h : (f.slotsFrom s).overlaps (g.slotsFrom t) = false) :
    moveInstructions [a.movedTo (.stack 0), b.inSlot t] [a.inSlot s, b.movedTo (.stack 0)] =
      .ok [.store f s, .load g t] := by
  have hplan : ofPairs 1 [(b.inSlot t, b.movedTo (.stack 0))] = _ :=
    ofPairs_of_adds rfl (.push rfl hb)
  have hload : stackLoads false 1 [(b.inSlot t, b.movedTo (.stack 0))] = .ok [.load g t] := by
    rw [stackLoads_cons]
    exact congrArg (fun x => (storable x).bind fun load => .ok [load])
      (Instruction.loadOf_eq_ok t hb)
  refine moveInstructions_eq_ok_iff.mpr
    ⟨_, [.load g t], ofPairs_of_adds hplan (.popInto rfl rfl ha), rfl, hload, ?_⟩
  unfold instructions
  rw [clobbering?_eq_none_iff.mpr]
  · rfl
  · simpa using h

/-- Two values are never sent to their slots by one move exactly if the ranges overlap. -/
theorem excludes_iff (ha : StorageClass.ofType a.type = .ok f)
    (hb : StorageClass.ofType b.type = .ok g) :
    (a.inSlot s).Excludes (b.inSlot t) ↔ (f.slotsFrom s).overlaps (g.slotsFrom t) = true := by
  constructor
  · intro h
    by_contra hn
    obtain ⟨e, he, -⟩ := h [a.movedTo (.stack 0), b.movedTo (.stack 1)] [a.inSlot s, b.inSlot t] rfl
      (List.Sublist.refl _)
    rw [moveValues_eq, moveInstructions_pop_pop ha hb (Bool.eq_false_iff.mpr hn)] at he
    cases he
  · intro h
    exact FlowValue.excludes_of_overlaps (FlowValue.slots?_of_localSlot rfl ha)
      (FlowValue.slots?_of_localSlot rfl hb) h

/-- The store of one value never comes before the load of the other exactly if the ranges
    overlap. -/
theorem neverBefore_iff (ha : StorageClass.ofType a.type = .ok f)
    (hb : StorageClass.ofType b.type = .ok g) :
    (Instruction.store f s).NeverBefore (.load g t) ↔
      (f.slotsFrom s).overlaps (g.slotsFrom t) = true := by
  constructor
  · intro h
    by_contra hn
    have hi := moveInstructions_pop_push ha hb (Bool.eq_false_iff.mpr hn)
    exact h _ _ _ (moveValues_eq_ok_iff.mpr ⟨_, hi, rfl⟩) (List.Sublist.refl _)
  · intro ho source target code h hsub
    have hn := (pairwise_not_spoils (moveInstructions_of_moveValues h)).forall_sublist hsub
    exact hn ⟨f, s, g, t, rfl, rfl, ho⟩

end TwoValues

end MovePlan

/-- Two values of storable types share a slot below the last one exactly if their ranges overlap,
    exactly if they are never sent to their slots by one move, and exactly if the one is never
    stored before the other is loaded. -/
theorem slots_overlap_iff {a b : FlowValue} {f g : StorageClass}
    (ha : StorageClass.ofType a.type = .ok f) (hb : StorageClass.ofType b.type = .ok g)
    (s t : UInt16) :
    (∃ x y, SlotRange.ofValue a s = .ok x ∧ SlotRange.ofValue b t = .ok y ∧
      (x.overlaps y = true ↔
        (a.inSlot s).Meets (b.inSlot t) ∧ s ≠ lastSlot ∧ t ≠ lastSlot)) ∧
    ((a.inSlot s).Excludes (b.inSlot t) ↔
      (a.inSlot s).Meets (b.inSlot t) ∧ s ≠ lastSlot ∧ t ≠ lastSlot) ∧
    ((Instruction.store f s).NeverBefore (.load g t) ↔
      (a.inSlot s).Meets (b.inSlot t) ∧ s ≠ lastSlot ∧ t ≠ lastSlot) := by
  have hoverlaps : (f.slotsFrom s).overlaps (g.slotsFrom t) = true ↔
      (a.inSlot s).Meets (b.inSlot t) ∧ s ≠ lastSlot ∧ t ≠ lastSlot := by
    rw [FlowValue.meets_inSlot_iff ha hb]
    exact overlaps_slotsFrom_iff f g s t
  refine ⟨⟨_, _, SlotRange.ofValue_eq_ok s ha, SlotRange.ofValue_eq_ok t hb, hoverlaps⟩, ?_, ?_⟩
  · exact (excludes_iff ha hb).trans hoverlaps
  · exact (neverBefore_iff ha hb).trans hoverlaps

/-- A `long` takes the slot of an `int` behind it. -/
theorem slots_overlap_wide :
    FlowValue.Excludes ⟨.primitive .long, .localSlot 65533, none⟩
        ⟨.primitive .int, .localSlot 65534, none⟩ ∧
      (Instruction.store .long 65533).NeverBefore (.load .int 65534) := by
  have hlong : StorageClass.ofType (.primitive .long) = .ok .long := rfl
  have hint : StorageClass.ofType (.primitive .int) = .ok .int := rfl
  have hmeets : FlowValue.Meets ⟨.primitive .long, .localSlot 65533, none⟩
      ⟨.primitive .int, .localSlot 65534, none⟩ :=
    ⟨65534, ⟨65533, .long, rfl, hlong, by decide, by decide⟩,
      65534, .int, rfl, hint, by decide, by decide⟩
  obtain ⟨-, hexcludes, hnever⟩ := slots_overlap_iff (a := ⟨.primitive .long, .stack 0, none⟩)
    (b := ⟨.primitive .int, .stack 0, none⟩) hlong hint 65533 65534
  have hslots : (65533 : UInt16) ≠ lastSlot ∧ (65534 : UInt16) ≠ lastSlot := by decide
  exact ⟨hexcludes.mpr ⟨hmeets, hslots⟩, hnever.mpr ⟨hmeets, hslots⟩⟩

/-- Two values of one slot that is the last one: their ranges do not overlap, both are stored there,
    and a value is stored there before what is there is loaded. -/
theorem moveValues_lastSlot :
    ∃ v : FlowValue, v = ⟨.primitive .int, .localSlot lastSlot, none⟩ ∧ v.Meets v ∧
      (∃ x, SlotRange.ofValue v lastSlot = .ok x ∧ x.overlaps x = false) ∧
      (∃ code, moveValues
          [⟨.primitive .int, .localSlot 1, none⟩, ⟨.primitive .int, .localSlot 2, none⟩] [v, v] =
            .ok code ∧
        instructionsOf code =
          [.load .int 1, .load .int 2, .store .int lastSlot, .store .int lastSlot]) ∧
      ∃ code, moveValues [⟨.primitive .int, .stack 0, none⟩, v]
          [v, ⟨.primitive .int, .stack 0, none⟩] = .ok code ∧
        instructionsOf code = [.store .int lastSlot, .load .int lastSlot] := by
  have hlies : FlowValue.Occupies ⟨.primitive .int, .localSlot lastSlot, none⟩ 65535 :=
    ⟨lastSlot, .int, rfl, rfl, by decide, by decide⟩
  exact ⟨_, rfl, ⟨65535, hlies, hlies⟩, ⟨_, rfl, rfl⟩, ⟨_, rfl, rfl⟩, ⟨_, rfl, rfl⟩⟩

end JvmWeave
