import Mathlib.Data.List.Pairwise
import JvmWeave.Proofs.Assignable
import JvmWeave.Proofs.Machine
import JvmWeave.Proofs.MovePlan

/-!
# Moving values is a parallel move

`moveInstructions` orders four groups of instructions in one of two ways.  The argument that neither
order loses a value has three layers:

* a list of *transfers* (a value with where it is and where it goes) is sorted into groups by the
  routes of its values, and `Describes` says that a plan is exactly that: which instructions, in
  which order, and which slots it believes to be read and written;
* on the machine, a run of the groups ends with the stack values in order and with the slots
  changed by one list of writes (`exists_run`), because the loads come before every write that meets
  a slot they read;
* the targets do not overlap, so that each write survives all others (`holds_writeAll`).

Everything is stated for all machine states that carry the values, not for one of them.
-/

set_option autoImplicit false

namespace JvmWeave

open MachineState MovePlan

/-! ## The groups of routes -/

namespace Route

@[simp] def poppedInto? : Route → Option UInt16
  | popInto slot => some slot
  | _ => none

@[simp] def pushedFrom? : Route → Option UInt16
  | push slot => some slot
  | _ => none

@[simp] def carriedFrom? : Route → Option UInt16
  | carry a _ => some a
  | _ => none

@[simp] def carriedTo? : Route → Option UInt16
  | carry _ b => some b
  | _ => none

/-- The slot that has to be read, which is none if the value stays there. -/
@[simp] def readFrom? : Route → Option UInt16
  | carry slot _ | push slot => some slot
  | _ => none

/-- The slot that the value is in at the end. -/
@[simp] def writtenTo? : Route → Option UInt16
  | popInto slot | rest slot | carry _ slot => some slot
  | _ => none

/-- The slot that the value is in at the start. -/
@[simp] def heldIn? : Route → Option UInt16
  | rest slot | carry slot _ | push slot => some slot
  | _ => none

@[simp] def isKept : Route → Bool
  | keep => true
  | _ => false

@[simp] def startsOnStack : Route → Bool
  | keep | popInto _ => true
  | _ => false

@[simp] def endsOnStack : Route → Bool
  | keep | push _ => true
  | _ => false

theorem writtenTo?_of_poppedInto? (r : Route) (slot : UInt16) (h : r.poppedInto? = some slot) :
    r.writtenTo? = some slot := by
  cases r <;> simp_all

theorem writtenTo?_of_carriedTo? (r : Route) (slot : UInt16) (h : r.carriedTo? = some slot) :
    r.writtenTo? = some slot := by
  cases r <;> simp_all

theorem readFrom?_of_carriedFrom? (r : Route) (slot : UInt16) (h : r.carriedFrom? = some slot) :
    r.readFrom? = some slot := by
  cases r <;> simp_all

theorem readFrom?_of_pushedFrom? (r : Route) (slot : UInt16) (h : r.pushedFrom? = some slot) :
    r.readFrom? = some slot := by
  cases r <;> simp_all

theorem heldIn?_of_readFrom? (r : Route) (slot : UInt16) (h : r.readFrom? = some slot) :
    r.heldIn? = some slot := by
  cases r <;> simp_all

/-- A value that ends in a slot was put there, or was there from the start. -/
theorem written_or_held (r : Route) (slot : UInt16) (h : r.writtenTo? = some slot) :
    (r.poppedInto? = some slot ∨ r.carriedTo? = some slot) ∨ r.heldIn? = some slot := by
  cases r <;> simp_all

end Route

/-- What a route says of the two places, if it is a way at all. -/
theorem FlowValue.places_of_route {source target : FlowValue}
    (h : source.routeTo target ≠ .blocked) :
    source.location.isStack = (source.routeTo target).startsOnStack ∧
      target.location.isStack = (source.routeTo target).endsOnStack ∧
      (∀ slot, source.location = .localSlot slot ↔
        (source.routeTo target).heldIn? = some slot) ∧
      ∀ slot, target.location = .localSlot slot ↔
        (source.routeTo target).writtenTo? = some slot := by
  unfold routeTo at h ⊢
  cases hs : source.location <;> cases ht : target.location <;> simp only [hs, ht] at h ⊢
  all_goals
    try split at h
    all_goals simp_all [Location.isStack, Location.kind]

/-- Whether no instruction moves a value from the place or to it. -/
def Location.isSettled : Location → Bool
  | stack _ | localSlot _ => false
  | field _ _ | other _ => true

theorem FlowValue.location_eq_of_route {source target : FlowValue}
    (h : source.routeTo target ≠ .blocked)
    (hs : source.location.isSettled = true ∨ target.location.isSettled = true) :
    source.location = target.location := by
  unfold routeTo at h
  split at h
  · next hs' ht' => simp [hs', ht', Location.isSettled] at hs
  · next hs' ht' => simp [hs', ht', Location.isSettled] at hs
  · next hs' ht' => simp [hs', ht', Location.isSettled] at hs
  · next hs' ht' => simp [hs', ht', Location.isSettled] at hs
  · split at h
    · next heq => exact heq
    · exact absurd rfl h

/-- The value, if it is in a local slot, lies within those of a method. -/
def FlowValue.FitsSlots (v : FlowValue) : Prop :=
  ∀ slot family, v.location = .localSlot slot → StorageClass.ofType v.type = .ok family →
    slot.toNat + family.width ≤ slotLimit

/-- A value with the place where it is and the place where it goes. -/
structure Transfer where
  value : MachineValue
  source : FlowValue
  target : FlowValue

namespace Transfer

abbrev route (t : Transfer) : Route :=
  t.source.routeTo t.target

/-- The values whose routes have a slot of some kind, each with that slot. -/
def placed (slot? : Route → Option UInt16) (ts : List Transfer) : List Placed :=
  ts.filterMap fun t => (slot? t.route).map fun slot => (slot, t.value)

/-- The values whose routes are of some kind. -/
def valuesOf (p : Route → Bool) (ts : List Transfer) : List MachineValue :=
  (ts.filter fun t => p t.route).map value

@[simp] theorem placed_nil (slot? : Route → Option UInt16) : placed slot? [] = [] := rfl

@[simp] theorem placed_cons (slot? : Route → Option UInt16) (t : Transfer) (ts : List Transfer) :
    placed slot? (t :: ts) =
      ((slot? t.route).map fun slot => (slot, t.value)).toList ++ placed slot? ts := by
  unfold placed
  cases h : slot? t.route <;> simp [h]

@[simp] theorem valuesOf_nil (p : Route → Bool) : valuesOf p [] = [] := rfl

@[simp] theorem valuesOf_cons (p : Route → Bool) (t : Transfer) (ts : List Transfer) :
    valuesOf p (t :: ts) = (if p t.route then [t.value] else []) ++ valuesOf p ts := by
  unfold valuesOf
  cases h : p t.route <;> simp [h]

theorem mem_placed {slot? : Route → Option UInt16} {ts : List Transfer} {w : Placed} :
    w ∈ placed slot? ts ↔ ∃ t ∈ ts, slot? t.route = some w.1 ∧ t.value = w.2 := by
  unfold placed
  rw [List.mem_filterMap]
  constructor
  · rintro ⟨t, ht, h⟩
    obtain ⟨slot, hs, rfl⟩ := Option.map_eq_some_iff.mp h
    exact ⟨t, ht, hs, rfl⟩
  · rintro ⟨t, ht, hs, hv⟩
    exact ⟨t, ht, by rw [hs, hv]; rfl⟩

/-- A kind of slot that is among another kind gives some of its values. -/
theorem placed_mono {f g : Route → Option UInt16}
    (h : ∀ r slot, f r = some slot → g r = some slot) {ts : List Transfer} {w : Placed}
    (hw : w ∈ placed f ts) : w ∈ placed g ts := by
  obtain ⟨t, ht, hf, hv⟩ := mem_placed.mp hw
  exact mem_placed.mpr ⟨t, ht, h _ _ hf, hv⟩

/-- What is promised of a transfer: the value has the storage class of its type, may be used where
    it goes, and lies within the slots of a method. -/
structure Sound (t : Transfer) : Prop where
  typed : ∀ family, StorageClass.ofType t.source.type = .ok family → t.value.family = family
  assignable : t.source.type.isAssignable t.target.type = true
  sourceFits : t.source.FitsSlots
  targetFits : t.target.FitsSlots

theorem Sound.family_source {t : Transfer} {family : StorageClass} (h : t.Sound)
    (hf : StorageClass.ofType t.source.type = .ok family) : family = t.value.family :=
  (h.typed family hf).symm

theorem Sound.family_target {t : Transfer} {family : StorageClass} (h : t.Sound)
    (hf : StorageClass.ofType t.target.type = .ok family) : family = t.value.family :=
  h.family_source (JavaType.storageClass_of_isAssignable h.assignable hf)

theorem Sound.heldFits {t : Transfer} {slot : UInt16} (h : t.Sound)
    (hr : t.route.heldIn? = some slot)
    (hf : StorageClass.ofType t.source.type = .ok t.value.family) :
    slot.toNat + t.value.width ≤ slotLimit := by
  have hb : t.route ≠ .blocked := by
    intro hb
    rw [hb] at hr
    cases hr
  exact h.sourceFits slot _ (((FlowValue.places_of_route hb).2.2.1 slot).mpr hr) hf

theorem Sound.writtenFits {t : Transfer} {slot : UInt16} (h : t.Sound)
    (hr : t.route.writtenTo? = some slot)
    (hf : StorageClass.ofType t.target.type = .ok t.value.family) :
    slot.toNat + t.value.width ≤ slotLimit := by
  have hb : t.route ≠ .blocked := by
    intro hb
    rw [hb] at hr
    cases hr
  exact h.targetFits slot _ (((FlowValue.places_of_route hb).2.2.2 slot).mpr hr) hf

end Transfer

/-- The slots of a value that lies within the slots of a method. -/
def MachineState.slotRange (w : Placed) : SlotRange :=
  ⟨w.1.toNat, w.1.toNat + w.2.width⟩

theorem StorageClass.slotsFrom_eq {slot : UInt16} {v : MachineValue}
    (h : slot.toNat + v.width ≤ slotLimit) : v.family.slotsFrom slot = slotRange (slot, v) := by
  unfold StorageClass.slotsFrom slotRange
  exact congrArg (SlotRange.mk slot.toNat) (Nat.min_eq_left h)

theorem MachineState.overlaps_eq_false_iff {a b : Placed} :
    (slotRange a).overlaps (slotRange b) = false ↔ Apart a b := by
  unfold SlotRange.overlaps Apart slotRange
  rw [Bool.and_eq_false_iff, decide_eq_false_iff_not, decide_eq_false_iff_not]
  dsimp only
  omega

namespace MovePlan

open Transfer

/-! ## A plan describes the transfers it was made for -/

/-- The plan says of the transfers what is true of them. -/
structure Describes (plan : MovePlan) (ts : List Transfer) : Prop where
  stores : plan.stores = ((placed Route.poppedInto? ts).map storeInto).reverse
  slotLoads : plan.slotLoads = (placed Route.carriedFrom? ts).map loadFrom
  slotStores : plan.slotStores = ((placed Route.carriedTo? ts).map storeInto).reverse
  read : plan.read.map Prod.snd = ((placed Route.readFrom? ts).map slotRange).reverse
  written : plan.written.map Prod.snd = ((placed Route.writtenTo? ts).map slotRange).reverse
  stored : plan.stored.map Prod.snd = ((placed Route.poppedInto? ts).map slotRange).reverse
  kept : plan.keptOnStack = false → valuesOf Route.isKept ts = []
  fits : ∀ w ∈ placed Route.writtenTo? ts, w.1.toNat + w.2.width ≤ slotLimit
  /-- What is popped lies above what is kept. -/
  onStack : valuesOf Route.startsOnStack ts =
    valuesOf Route.isKept ts ++ (placed Route.poppedInto? ts).map Prod.snd

/-- One case for each route. -/
theorem describes_of_ofPairs {ts : List Transfer} {index : Nat} {plan : MovePlan}
    (hs : ∀ t ∈ ts, t.Sound)
    (h : ofPairs index (ts.map fun t => (t.source, t.target)) = .ok plan) :
    plan.Describes ts := by
  induction ts generalizing index plan with
  | nil =>
    cases h
    constructor <;> simp
  | cons t ts ih =>
    obtain ⟨plan', hp, ha⟩ := exists_of_ofPairs h
    obtain ⟨h₁, h₂, h₃, h₄, h₅, h₆, hk', hw', ho⟩ :=
      ih (fun t' ht' => hs t' (List.mem_cons_of_mem _ ht')) hp
    have hst := hs t List.mem_cons_self
    -- Each list is that of the values behind this one, with what its route says added at one end.
    cases ha with
    | keep hr =>
      constructor <;> simp [hr, h₁, h₂, h₃, h₄, h₅, h₆, ho]
      exact fun _ _ => hw' _
    | popInto hr hk hf =>
      obtain rfl := hst.family_target hf
      have hfit := hst.writtenFits (congrArg Route.writtenTo? hr) hf
      have hw := StorageClass.slotsFrom_eq hfit
      constructor <;> simp [hr, h₁, h₂, h₃, h₄, h₅, h₆, ho, hw, hk' hk, storeInto]
      exact ⟨hfit, fun _ _ => hw' _⟩
    | rest hr hf =>
      obtain rfl := hst.family_target hf
      have hfit := hst.writtenFits (congrArg Route.writtenTo? hr) hf
      have hw := StorageClass.slotsFrom_eq hfit
      constructor <;> simp [hr, h₁, h₂, h₃, h₄, h₅, h₆, ho, hw]
      · exact hk'
      · exact ⟨hfit, fun _ _ => hw' _⟩
    | carry hr hf hf' =>
      obtain rfl := hst.family_source hf
      obtain rfl := hst.family_target hf'
      have hh := StorageClass.slotsFrom_eq (hst.heldFits (congrArg Route.heldIn? hr) hf)
      have hfit := hst.writtenFits (congrArg Route.writtenTo? hr) hf'
      have hw := StorageClass.slotsFrom_eq hfit
      constructor <;> simp [hr, h₁, h₂, h₃, h₄, h₅, h₆, ho, hh, hw, storeInto, loadFrom]
      · exact hk'
      · exact ⟨hfit, fun _ _ => hw' _⟩
    | push hr hf =>
      obtain rfl := hst.family_source hf
      have hh := StorageClass.slotsFrom_eq (hst.heldFits (congrArg Route.heldIn? hr) hf)
      constructor <;> simp [hr, h₁, h₂, h₃, h₄, h₅, h₆, ho, hh]
      · exact hk'
      · exact fun _ _ => hw' _
    | fixed hr =>
      constructor <;> simp [hr, h₁, h₂, h₃, h₄, h₅, h₆, ho]
      · exact hk'
      · exact fun _ _ => hw' _

/-- The loads that stay on the stack are those of the values that are pushed, in order, and what is
    pushed lies above what is kept. -/
theorem loads_of_stackLoads {ts : List Transfer} {loaded : Bool} {index : Nat}
    {loads : List Instruction} (hs : ∀ t ∈ ts, t.Sound ∧ t.route ≠ .blocked)
    (h : stackLoads loaded index (ts.map fun t => (t.source, t.target)) = .ok loads) :
    loads = (placed Route.pushedFrom? ts).map loadFrom ∧
      (loaded = true → valuesOf Route.isKept ts = []) ∧
      valuesOf Route.endsOnStack ts =
        valuesOf Route.isKept ts ++ (placed Route.pushedFrom? ts).map Prod.snd := by
  induction ts generalizing loaded index loads with
  | nil =>
    cases h
    exact ⟨rfl, fun _ => rfl, rfl⟩
  | cons t ts ih =>
    have hts := fun t' ht' => hs t' (List.mem_cons_of_mem _ ht')
    obtain ⟨hst, hb⟩ := hs t List.mem_cons_self
    rw [List.map_cons] at h
    obtain ⟨slot, family, rest, hr, hf, rfl, hrest⟩ | ⟨hr, hl, hrest⟩ | ⟨hpush, hkeep, hrest⟩ :=
      exists_of_stackLoads h
    · obtain rfl := hst.family_source hf
      obtain ⟨rfl, hk, he⟩ := ih hts hrest
      have hroute : t.route = .push slot := hr
      simp [hroute, hk, he, loadFrom]
    · obtain ⟨rfl, -, he⟩ := ih hts hrest
      have hroute : t.route = .keep := hr
      simp [hroute, he, hl]
    -- Neither pushed nor kept: the stack holds nothing of this value afterwards.
    · obtain ⟨rfl, hk, he⟩ := ih hts hrest
      obtain ⟨hp, hk', he'⟩ : t.route.pushedFrom? = none ∧ t.route.isKept = false ∧
          t.route.endsOnStack = false := by
        cases hroute : t.route with
        | push slot => exact (hpush slot hroute).elim
        | keep => exact (hkeep hroute).elim
        | _ => exact ⟨rfl, rfl, rfl⟩
      rw [placed_cons, valuesOf_cons, valuesOf_cons, hp, hk', he']
      exact ⟨rfl, hk, he⟩

/-! ## Which slots meet -/

theorem collision?_eq_none_iff {l : List (Nat × SlotRange)} :
    collision? l = none ↔ (l.map Prod.snd).Pairwise fun a b => a.overlaps b = false := by
  induction l with
  | nil => simp [collision?]
  | cons x l ih =>
    obtain ⟨index, slots⟩ := x
    rw [collision?, List.map_cons, List.pairwise_cons, ← ih]
    split
    · next h =>
      simp only [List.any_eq_true] at h
      obtain ⟨y, hy, hxy⟩ := h
      refine iff_of_false (by simp) fun hn => ?_
      rw [hn.1 y.2 (List.mem_map_of_mem hy)] at hxy
      cases hxy
    · next h =>
      refine (and_iff_right fun y hy => ?_).symm
      obtain ⟨z, hz, rfl⟩ := List.mem_map.mp hy
      exact Bool.eq_false_iff.mpr fun ho => h (List.any_eq_true.mpr ⟨z, hz, ho⟩)

/-- No collision is seen exactly if no two values that end up in slots meet there. -/
theorem Describes.collision?_eq_none_iff {plan : MovePlan} {ts : List Transfer}
    (h : plan.Describes ts) :
    collision? plan.written = none ↔ (placed Route.writtenTo? ts).Pairwise Apart := by
  rw [MovePlan.collision?_eq_none_iff, h.written, List.pairwise_reverse, List.pairwise_map]
  simp only [overlaps_eq_false_iff]
  exact ⟨fun hp => hp.imp Apart.symm, fun hp => hp.imp Apart.symm⟩

theorem Describes.written_apart {plan : MovePlan} {ts : List Transfer} (h : plan.Describes ts)
    (hc : collision? plan.written = none) {a b : Placed} (ha : a ∈ placed Route.writtenTo? ts)
    (hb : b ∈ placed Route.writtenTo? ts) : a = b ∨ Apart a b := by
  by_cases hab : a = b
  · exact .inl hab
  · exact .inr ((h.collision?_eq_none_iff.mp hc).forall ha hb hab)

/-- What a plan says of its slots is said of the values in them. -/
theorem forall_slots_iff {l : List (Nat × SlotRange)} {ws : List Placed} (p : SlotRange → Prop)
    (h : l.map Prod.snd = (ws.map slotRange).reverse) :
    (∀ s ∈ l, p s.2) ↔ ∀ w ∈ ws, p (slotRange w) := by
  rw [← List.forall_mem_map (f := Prod.snd), h]
  simp only [List.mem_reverse, List.forall_mem_map]

theorem clobbering?_eq_none_iff {plan : MovePlan} :
    plan.clobbering? = none ↔
      ∀ s ∈ plan.stored, ∀ r ∈ plan.read, s.2.overlaps r.2 = false := by
  unfold clobbering?
  rw [Option.map_eq_none_iff, List.find?_eq_none]
  simp only [List.any_eq_true, not_exists, not_and, Bool.not_eq_true]

/-- The stores from the stack can come first exactly if they do not meet what is read after
    them. -/
theorem Describes.clobbering?_eq_none_iff {plan : MovePlan} {ts : List Transfer}
    (h : plan.Describes ts) :
    plan.clobbering? = none ↔
      ∀ a ∈ placed Route.poppedInto? ts, ∀ b ∈ placed Route.readFrom? ts, Apart a b := by
  rw [MovePlan.clobbering?_eq_none_iff,
    forall_slots_iff (fun s => ∀ r ∈ plan.read, s.overlaps r.2 = false) h.stored]
  refine forall₂_congr fun a _ => ?_
  rw [forall_slots_iff (fun r => (slotRange a).overlaps r = false) h.read]
  exact forall₂_congr fun b _ => overlaps_eq_false_iff

/-! ## The run of a plan -/

theorem placed_snd_of_carried (ts : List Transfer) :
    (placed Route.carriedTo? ts).map Prod.snd = (placed Route.carriedFrom? ts).map Prod.snd := by
  induction ts with
  | nil => rfl
  | cons t ts ih =>
    rw [placed_cons, placed_cons, List.map_append, List.map_append, ih]
    cases t.route <;> rfl

/-- Values that go from slot to slot are loaded and then stored, which changes slots alone. -/
theorem Describes.runAll_carry {plan : MovePlan} {ts : List Transfer} (h : plan.Describes ts)
    {stack : List MachineValue} {locals : Nat → Option SlotPart}
    (hh : ∀ w ∈ placed Route.carriedFrom? ts, Holds locals w.1.toNat w.2) :
    runAll (plan.slotLoads ++ plan.slotStores) ⟨stack, locals⟩ =
      some ⟨stack, writeAll (placed Route.carriedTo? ts).reverse locals⟩ := by
  rw [h.slotLoads, h.slotStores, runAll_append_of_eq_some (runAll_loads hh),
    ← placed_snd_of_carried, ← List.map_reverse, ← List.map_reverse]
  exact runAll_stores fun w hw =>
    h.fits w (placed_mono Route.writtenTo?_of_carriedTo? (List.mem_reverse.mp hw))

/-- Values that go from the stack to slots are stored from its top downwards. -/
theorem Describes.runAll_pop {plan : MovePlan} {ts : List Transfer} (h : plan.Describes ts)
    {base : List MachineValue} {locals : Nat → Option SlotPart} :
    runAll plan.stores ⟨(valuesOf Route.startsOnStack ts).reverse ++ base, locals⟩ =
      some ⟨(valuesOf Route.isKept ts).reverse ++ base,
        writeAll (placed Route.poppedInto? ts).reverse locals⟩ := by
  rw [h.stores, h.onStack, List.reverse_append, List.append_assoc, ← List.map_reverse,
    ← List.map_reverse]
  exact runAll_stores fun w hw =>
    h.fits w (placed_mono Route.writtenTo?_of_poppedInto? (List.mem_reverse.mp hw))

/-- In either order the instructions leave on the stack what belongs there, and write every value
    that changes its slot, and no other one. -/
theorem Describes.exists_run {plan : MovePlan} {ts : List Transfer} (h : plan.Describes ts)
    {loads is : List Instruction} (hl : loads = (placed Route.pushedFrom? ts).map loadFrom)
    (he : valuesOf Route.endsOnStack ts =
      valuesOf Route.isKept ts ++ (placed Route.pushedFrom? ts).map Prod.snd)
    (hi : plan.instructions loads = .ok is) (base : List MachineValue)
    {locals : Nat → Option SlotPart}
    (hh : ∀ w ∈ placed Route.heldIn? ts, Holds locals w.1.toNat w.2) :
    ∃ ws : List Placed,
      (∀ w, w ∈ ws ↔ w ∈ placed Route.poppedInto? ts ∨ w ∈ placed Route.carriedTo? ts) ∧
      runAll is ⟨(valuesOf Route.startsOnStack ts).reverse ++ base, locals⟩ =
        some ⟨(valuesOf Route.endsOnStack ts).reverse ++ base, writeAll ws locals⟩ := by
  have hheld : ∀ w ∈ placed Route.readFrom? ts, Holds locals w.1.toNat w.2 := fun w hw =>
    hh w (placed_mono Route.heldIn?_of_readFrom? hw)
  rcases orders_of_instructions hi with ⟨hc, rfl⟩ | ⟨hnil, rfl⟩
  · -- What is read has survived the stores from the stack.
    have hread : ∀ w ∈ placed Route.readFrom? ts,
        Holds (writeAll (placed Route.poppedInto? ts).reverse locals) w.1.toNat w.2 := by
      intro w hw
      exact holds_writeAll (.inr (hheld w hw)) fun a ha =>
        .inr (h.clobbering?_eq_none_iff.mp hc a (List.mem_reverse.mp ha) w hw)
    have hpush : ∀ w ∈ placed Route.pushedFrom? ts, Holds _ w.1.toNat w.2 := fun w hw =>
      hread w (placed_mono Route.readFrom?_of_pushedFrom? hw)
    refine ⟨(placed Route.poppedInto? ts).reverse ++ (placed Route.carriedTo? ts).reverse,
      by simp, ?_⟩
    rw [List.append_assoc, List.append_assoc, runAll_append_of_eq_some h.runAll_pop, hl,
      runAll_append_of_eq_some (runAll_loads hpush),
      h.runAll_carry fun w hw => hread w (placed_mono Route.readFrom?_of_carriedFrom? hw),
      writeAll_append, he, List.reverse_append, List.append_assoc]
  · -- The other order reads slots first, and there is nothing to push that could bury a value.
    have hp : placed Route.pushedFrom? ts = [] := List.map_eq_nil_iff.mp (hl.symm.trans hnil)
    have hcarry : ∀ w ∈ placed Route.carriedFrom? ts, Holds locals w.1.toNat w.2 :=
      fun w hw => hheld w (placed_mono Route.readFrom?_of_carriedFrom? hw)
    refine ⟨(placed Route.carriedTo? ts).reverse ++ (placed Route.poppedInto? ts).reverse,
      by simp [or_comm], ?_⟩
    rw [runAll_append_of_eq_some (h.runAll_carry hcarry), h.runAll_pop, writeAll_append, he, hp,
      List.map_nil, List.append_nil]

end MovePlan

open Transfer

/-! ## States that carry values -/

/-- The values that lie on the operand stack, the lowest first. -/
def onStack (flow : List FlowValue) (values : List MachineValue) : List MachineValue :=
  ((flow.zip values).filter fun p => p.1.location.isStack).map Prod.snd

/-- The state has the values in the places that `flow` gives, on the stack above `base`. -/
structure MachineState.Carries (m : MachineState) (base : List MachineValue)
    (flow : List FlowValue) (values : List MachineValue) : Prop where
  length_eq : values.length = flow.length
  typed : ∀ p ∈ flow.zip values, ∀ family, StorageClass.ofType p.1.type = .ok family →
    p.2.family = family
  stack_eq : m.stack = (onStack flow values).reverse ++ base
  held : ∀ p ∈ flow.zip values, ∀ slot, p.1.location = .localSlot slot →
    Holds m.locals slot.toNat p.2

/-- A local value of `flow` lies in the slot. -/
def Covered (flow : List FlowValue) (values : List MachineValue) (n : Nat) : Prop :=
  ∃ p ∈ flow.zip values, ∃ slot, p.1.location = .localSlot slot ∧
    slot.toNat ≤ n ∧ n < slot.toNat + p.2.width

/-- From any state with values in the places of `source`, the instructions run to their end, where
    the same values are in the places of `target` and all other slots are as before. -/
def MovesAll (is : List Instruction) (source target : List FlowValue) : Prop :=
  ∀ m base values, MachineState.Carries m base source values →
    ∃ m', runAll is m = some m' ∧ m'.Carries base target values ∧
      ∀ n, ¬Covered target values n → m'.locals n = m.locals n

namespace Transfer

theorem exists_of_lengths {source target : List FlowValue} {values : List MachineValue}
    (hst : source.length = target.length) (hv : values.length = source.length) :
    ∃ ts : List Transfer,
      source = ts.map Transfer.source ∧ target = ts.map Transfer.target ∧
        values = ts.map Transfer.value := by
  induction source generalizing target values with
  | nil =>
    obtain rfl := List.length_eq_zero_iff.mp hst.symm
    obtain rfl := List.length_eq_zero_iff.mp hv
    exact ⟨[], rfl, rfl, rfl⟩
  | cons s source ih =>
    obtain ⟨t, target, rfl⟩ := List.exists_cons_of_length_eq_add_one hst.symm
    obtain ⟨v, values, rfl⟩ := List.exists_cons_of_length_eq_add_one hv
    obtain ⟨ts, rfl, rfl, rfl⟩ := ih (Nat.succ.inj hst) (Nat.succ.inj hv)
    exact ⟨⟨v, s, t⟩ :: ts, rfl, rfl, rfl⟩

theorem onStack_map (f : Transfer → FlowValue) (p : Route → Bool) {ts : List Transfer}
    (h : ∀ t ∈ ts, (f t).location.isStack = p t.route) :
    onStack (ts.map f) (ts.map value) = valuesOf p ts := by
  unfold onStack valuesOf
  rw [List.zip_map', List.filter_map, List.map_map]
  exact congrArg _ (List.filter_congr h)

end Transfer

/-- After the writes of a run every value is in the slot where it ends, as it meets none of the
    others there. -/
theorem MovePlan.Describes.holds_written {plan : MovePlan} {ts : List Transfer}
    (h : plan.Describes ts) (hc : collision? plan.written = none) {ws : List Placed}
    (hws : ∀ w, w ∈ ws ↔ w ∈ placed Route.poppedInto? ts ∨ w ∈ placed Route.carriedTo? ts)
    {locals : Nat → Option SlotPart}
    (hh : ∀ w ∈ placed Route.heldIn? ts, Holds locals w.1.toNat w.2) :
    ∀ w ∈ placed Route.writtenTo? ts, Holds (writeAll ws locals) w.1.toNat w.2 := by
  intro w hw
  refine holds_writeAll ?_ fun a ha => h.written_apart hc ?_ hw
  · obtain ⟨t, ht, hr, hv⟩ := mem_placed.mp hw
    rcases Route.written_or_held _ _ hr with hr' | hr'
    · refine .inl ((hws w).mpr ?_)
      exact hr'.imp (fun hr' => mem_placed.mpr ⟨t, ht, hr', hv⟩)
        fun hr' => mem_placed.mpr ⟨t, ht, hr', hv⟩
    · exact .inr (hh w (mem_placed.mpr ⟨t, ht, hr', hv⟩))
  · exact ((hws a).mp ha).elim (placed_mono Route.writtenTo?_of_poppedInto?)
      (placed_mono Route.writtenTo?_of_carriedTo?)

/-- Whatever plan is made, its instructions move all values at once. -/
theorem MovePlan.movesAll {source target : List FlowValue} {is : List Instruction}
    (hlen : source.length = target.length)
    (ha : ∀ p ∈ source.zip target, p.1.type.isAssignable p.2.type = true)
    (hf : ∀ v ∈ source ++ target, v.FitsSlots) (h : moveInstructions source target = .ok is) :
    MovesAll is source target := by
  intro m base values hm
  obtain ⟨plan, loads, hp, hc, hl, hi⟩ := moveInstructions_eq_ok_iff.mp h
  obtain ⟨ts, rfl, rfl, rfl⟩ := Transfer.exists_of_lengths hlen hm.length_eq
  obtain ⟨-, htyped, hstack, hheld⟩ := hm
  rw [List.zip_map'] at ha hp hl htyped hheld
  simp only [List.forall_mem_map] at ha htyped hheld
  have hs : ∀ t ∈ ts, t.Sound := fun t ht =>
    ⟨htyped t ht, ha t ht, hf _ (List.mem_append_left _ (List.mem_map_of_mem ht)),
      hf _ (List.mem_append_right _ (List.mem_map_of_mem ht))⟩
  have hb : ∀ t ∈ ts, t.route ≠ .blocked := fun t ht =>
    unblocked_of_ofPairs hp _ (List.mem_map_of_mem ht)
  have hplaces := fun t ht => FlowValue.places_of_route (hb t ht)
  have hd := describes_of_ofPairs hs hp
  obtain ⟨hl, -, he⟩ := loads_of_stackLoads (fun t ht => ⟨hs t ht, hb t ht⟩) hl
  have hh : ∀ w ∈ placed Route.heldIn? ts, Holds m.locals w.1.toNat w.2 := by
    intro w hw
    obtain ⟨t, ht, hr, hv⟩ := mem_placed.mp hw
    rw [← hv]
    exact hheld t ht w.1 (((hplaces t ht).2.2.1 w.1).mpr hr)
  -- From here on only the writes count, and no longer the order of the instructions.
  obtain ⟨ws, hws, hrun⟩ := hd.exists_run hl he hi base hh
  rw [Transfer.onStack_map Transfer.source _ fun t ht => (hplaces t ht).1] at hstack
  rw [← hstack] at hrun
  refine ⟨_, hrun, ⟨by simp, ?_, ?_, ?_⟩, ?_⟩
  · rw [List.zip_map', List.forall_mem_map]
    exact fun t ht family hf => ((hs t ht).family_target hf).symm
  · rw [Transfer.onStack_map Transfer.target _ fun t ht => (hplaces t ht).2.1]
  · rw [List.zip_map', List.forall_mem_map]
    exact fun t ht slot hl => hd.holds_written hc hws hh (slot, t.value)
      (mem_placed.mpr ⟨t, ht, ((hplaces t ht).2.2.2 slot).mp hl, rfl⟩)
  · intro n hn
    refine writeAll_of_uncovered fun w hw hcov => hn ?_
    have hwritten : w ∈ placed Route.writtenTo? ts := ((hws w).mp hw).elim
      (placed_mono Route.writtenTo?_of_poppedInto?) (placed_mono Route.writtenTo?_of_carriedTo?)
    obtain ⟨t, ht, hr, hv⟩ := mem_placed.mp hwritten
    refine ⟨(t.target, t.value), ?_, w.1, ((hplaces t ht).2.2.2 w.1).mpr hr, hv ▸ hcov⟩
    rw [List.zip_map']
    exact List.mem_map_of_mem ht

/-- The instructions of code that moves values. -/
def instructionsOf : Option Fragment → List Instruction
  | some (.leaf (.run is _) _) => is
  | _ => []

/-- Code that moves values is a parallel move: it takes all of them from their places to those of
    the targets, whatever the order in which its instructions do so. -/
theorem movesAll_of_moveValues {source target : List FlowValue} {code : Option Fragment}
    (hlen : source.length = target.length)
    (ha : ∀ p ∈ source.zip target, p.1.type.isAssignable p.2.type = true)
    (hf : ∀ v ∈ source ++ target, v.FitsSlots) (h : moveValues source target = .ok code) :
    MovesAll (instructionsOf code) source target ∧
      (∀ f, code = some f → f = Fragment.run (instructionsOf code) source target) ∧
      ∀ p ∈ source.zip target,
        p.1.location.isSettled = true ∨ p.2.location.isSettled = true →
          p.1.location = p.2.location := by
  unfold moveValues at h
  simp only [bind, Except.bind, pure, Except.pure] at h
  split at h
  · cases h
  · next is hi =>
    have hsettled : ∀ p ∈ source.zip target,
        p.1.location.isSettled = true ∨ p.2.location.isSettled = true →
          p.1.location = p.2.location := by
      intro p hp
      obtain ⟨plan, _, hplan, -⟩ := moveInstructions_eq_ok_iff.mp hi
      exact FlowValue.location_eq_of_route (unblocked_of_ofPairs hplan p hp)
    have hmoves := MovePlan.movesAll hlen ha hf hi
    split at h
    · next hnil =>
      subst hnil
      cases h
      exact ⟨hmoves, nofun, hsettled⟩
    · cases h
      exact ⟨hmoves, fun f hf => (Option.some.inj hf).symm, hsettled⟩

/-- The store from the stack has to wait, as it would overwrite a value that goes on to a slot
    which is read as well. -/
theorem movesAll_waiting_store :
    ∃ code,
      moveValues
        [⟨.primitive .short, .stack 0, none⟩, ⟨.primitive .long, .localSlot 1, none⟩,
          ⟨.string, .localSlot 3, none⟩]
        [⟨.primitive .int, .localSlot 1, none⟩, ⟨.primitive .long, .localSlot 3, none⟩,
          ⟨.object, .localSlot 2, none⟩] = .ok code ∧
      instructionsOf code =
        [.load .long 1, .load .reference 3, .store .reference 2, .store .long 3, .store .int 1] ∧
      MovesAll (instructionsOf code)
        [⟨.primitive .short, .stack 0, none⟩, ⟨.primitive .long, .localSlot 1, none⟩,
          ⟨.string, .localSlot 3, none⟩]
        [⟨.primitive .int, .localSlot 1, none⟩, ⟨.primitive .long, .localSlot 3, none⟩,
          ⟨.object, .localSlot 2, none⟩] := by
  refine ⟨_, rfl, rfl, (movesAll_of_moveValues ?_ ?_ ?_ rfl).1⟩
  · rfl
  · decide
  · intro v hv slot family hl hf
    simp only [List.cons_append, List.nil_append, List.mem_cons, List.not_mem_nil, or_false] at hv
    rcases hv with rfl | rfl | rfl | rfl | rfl | rfl <;> cases hl <;> cases hf <;> decide

end JvmWeave
