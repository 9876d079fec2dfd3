import JvmWeave.Proofs.Insertion
import JvmWeave.Proofs.ParallelMove

/-!
# Moves that are refused

Values are moved by one list of instructions, and there is no such list for some moves.  A value can
be in a place that no instruction reaches, two values can be sent to one slot, and the stack gives
and takes only at its top.  `Unbindable` lists these reasons without any regard to how a list of
instructions is found.  The search for one is made of four parts, each of which is given up for some
of the reasons; together they are given up exactly if there is a reason
(`moveValues_unbindable_iff`).
-/

set_option autoImplicit false

namespace JvmWeave

open MachineState MovePlan

/-! ## The reasons -/

/-- The value lies in the slot, alone or with the one beside it. -/
def FlowValue.Occupies (v : FlowValue) (n : Nat) : Prop :=
  ∃ slot family, v.location = .localSlot slot ∧ StorageClass.ofType v.type = .ok family ∧
    slot.toNat ≤ n ∧ n < slot.toNat + family.width

/-- Some slot is one of both values. -/
def FlowValue.Meets (v w : FlowValue) : Prop :=
  ∃ n, v.Occupies n ∧ w.Occupies n

/-- A value where it is, and where it has to go. -/
abbrev Move := FlowValue × FlowValue

namespace Move

/-- The value goes from the stack to a slot. -/
def Popped (p : Move) : Prop :=
  p.1.location.kind = .stack ∧ p.2.location.kind = .localSlot

/-- The value stays on the stack. -/
def Kept (p : Move) : Prop :=
  p.1.location.kind = .stack ∧ p.2.location.kind = .stack

/-- The value goes from a slot to the stack. -/
def Pushed (p : Move) : Prop :=
  p.1.location.kind = .localSlot ∧ p.2.location.kind = .stack

/-- The value is in a slot and does not stay there. -/
def Read (p : Move) : Prop :=
  p.1.location.kind = .localSlot ∧ p.1.location ≠ p.2.location

/-- Both values of the move are held in slots. -/
def IsStorable (p : Move) : Prop :=
  p.1.type.IsStorable ∧ p.2.type.IsStorable

end Move

/-- Why values cannot be moved. -/
inductive Unbindable (moves : List Move) : Prop
  /-- A value would have to go to, or come from, a field or an unknown place. -/
  | settled {p : Move} (h : p ∈ moves) (hne : p.1.location ≠ p.2.location)
      (hs : p.1.location.isSettled = true ∨ p.2.location.isSettled = true)
  /-- A value would have to be popped from beneath one that stays. -/
  | buried {p q : Move} (h : [p, q].Sublist moves) (hp : p.Popped) (hq : q.Kept)
  /-- Two values end in one slot. -/
  | overlapping {p q : Move} (h : [p, q].Sublist moves) (hm : p.2.Meets q.2)
  /-- A value would have to be pushed beneath one that stays. -/
  | beneath {p q : Move} (h : [p, q].Sublist moves) (hp : p.Pushed) (hq : q.Kept)
  /-- A store has to wait until a slot is read, and is buried by what is pushed before. -/
  | clobbering {p q r : Move} (hpm : p ∈ moves) (hqm : q ∈ moves) (hrm : r ∈ moves)
      (hp : p.Pushed) (hq : q.Popped) (hr : r.Read) (hm : q.2.Meets r.1)

/-! ## Moves by their routes -/

theorem Route.poppedInto?_eq_some_iff {r : Route} {slot : UInt16} :
    r.poppedInto? = some slot ↔ r = .popInto slot := by
  cases r <;> simp

theorem Route.pushedFrom?_eq_some_iff {r : Route} {slot : UInt16} :
    r.pushedFrom? = some slot ↔ r = .push slot := by
  cases r <;> simp

namespace Move

abbrev route (p : Move) : Route :=
  p.1.routeTo p.2

theorem kept_iff {p : Move} : p.Kept ↔ p.route = .keep := by
  unfold Kept route FlowValue.routeTo
  cases p.1.location <;> cases p.2.location <;> simp [Location.kind]
  all_goals split <;> simp

theorem popped_iff {p : Move} : p.Popped ↔ ∃ slot, p.route = .popInto slot := by
  unfold Popped route FlowValue.routeTo
  cases p.1.location <;> cases p.2.location <;> simp [Location.kind]
  all_goals split <;> simp

theorem pushed_iff {p : Move} : p.Pushed ↔ ∃ slot, p.route = .push slot := by
  unfold Pushed route FlowValue.routeTo
  cases p.1.location <;> cases p.2.location <;> simp [Location.kind]
  all_goals split <;> simp

theorem blocked_iff {p : Move} : p.route = .blocked ↔ p.1.location ≠ p.2.location ∧
    (p.1.location.isSettled = true ∨ p.2.location.isSettled = true) := by
  unfold route FlowValue.routeTo
  cases p.1.location <;> cases p.2.location <;> simp [Location.isSettled]
  all_goals split <;> simp

theorem read_iff {p : Move} (hb : p.route ≠ .blocked) :
    p.Read ↔ ∃ slot, p.route.readFrom? = some slot := by
  revert hb
  unfold Read route FlowValue.routeTo
  cases p.1.location <;> cases p.2.location <;> simp [Location.kind]
  all_goals split_ifs <;> simp_all

end Move

theorem not_unbindable_iff {moves : List Move} :
    ¬Unbindable moves ↔
      ((∀ p ∈ moves, p.route ≠ .blocked) ∧ moves.Pairwise fun p q => ¬(p.Popped ∧ q.Kept)) ∧
      (moves.Pairwise fun p q => ¬p.2.Meets q.2) ∧
      (moves.Pairwise fun p q => ¬(p.Pushed ∧ q.Kept)) ∧
      ((∀ p ∈ moves, ¬p.Pushed) ∨
        ∀ q ∈ moves, q.Popped → ∀ r ∈ moves, r.Read → ¬q.2.Meets r.1) := by
  simp only [List.pairwise_iff_forall_sublist]
  constructor
  · intro hn
    refine ⟨⟨fun p hp hr => ?_, fun h hpq => hn (.buried h hpq.1 hpq.2)⟩,
      fun h hm => hn (.overlapping h hm), fun h hpq => hn (.beneath h hpq.1 hpq.2), ?_⟩
    · obtain ⟨hne, hs⟩ := Move.blocked_iff.mp hr
      exact hn (.settled hp hne hs)
    · rw [or_iff_not_imp_left]
      intro hpushed q hqm hq r hrm hr hm
      obtain ⟨p, hpm, hp⟩ : ∃ p ∈ moves, p.Pushed := by
        simpa only [not_forall, not_not, exists_prop] using hpushed
      exact hn (.clobbering hpm hqm hrm hp hq hr hm)
  · rintro ⟨⟨hblocked, hburied⟩, hoverlapping, hbeneath, hclobbering⟩ h
    cases h with
    | settled h hne hs => exact hblocked _ h (Move.blocked_iff.mpr ⟨hne, hs⟩)
    | buried h hp hq => exact hburied h ⟨hp, hq⟩
    | overlapping h hm => exact hoverlapping h hm
    | beneath h hp hq => exact hbeneath h ⟨hp, hq⟩
    | clobbering hpm hqm hrm hp hq hr hm =>
      rcases hclobbering with hn | hn
      · exact hn _ hpm hp
      · exact hn _ hqm hq _ hrm hr hm

namespace MovePlan

/-! ## Decisions -/

/-- There is a result if the condition holds, and otherwise some value cannot be moved. -/
inductive Decides {α : Type} (P : Prop) : Except MoveError α → Prop
  | done (a : α) (h : P) : Decides P (.ok a)
  | refused (index : Nat) (h : ¬P) : Decides P (.error (.unbindable index))

theorem Decides.of_iff {α : Type} {x : Except MoveError α} {P Q : Prop} (h : Decides P x)
    (hpq : P ↔ Q) : Decides Q x := by
  cases h with
  | done a h => exact .done a (hpq.mp h)
  | refused index h => exact .refused index (mt hpq.mpr h)

theorem Decides.exists_ok_iff {α : Type} {x : Except MoveError α} {P : Prop} (h : Decides P x) :
    (∃ a, x = .ok a) ↔ P := by
  cases h with
  | done a h => exact iff_of_true ⟨a, rfl⟩ h
  | refused index h => exact iff_of_false nofun h

theorem Decides.exists_unbindable_iff {α : Type} {x : Except MoveError α} {P : Prop}
    (h : Decides P x) : (∃ index, x = .error (.unbindable index)) ↔ ¬P := by
  cases h with
  | done a h => exact iff_of_false nofun (not_not.mpr h)
  | refused index h => exact iff_of_true ⟨index, rfl⟩ h

theorem Decides.unbindable {α : Type} {x : Except MoveError α} {P : Prop} {e : MoveError}
    (h : Decides P x) (he : x = .error e) : ∃ index, e = .unbindable index := by
  cases h with
  | done a h => cases he
  | refused index h =>
    cases he
    exact ⟨index, rfl⟩

theorem Decides.bind {α β : Type} {x : Except MoveError α} {f : α → Except MoveError β}
    {P Q : Prop} (hx : Decides P x) (hf : ∀ a, x = .ok a → Decides Q (f a)) :
    Decides (P ∧ Q) (x.bind f) := by
  cases hx with
  | done a h => exact (hf a rfl).of_iff (and_iff_right h).symm
  | refused index h => exact .refused index fun hpq => h hpq.1

theorem Decides.map {α β : Type} {x : Except MoveError α} {P : Prop} (hx : Decides P x)
    (f : α → β) : Decides P (x.map f) := by
  cases hx with
  | done a h => exact .done (f a) h
  | refused index h => exact .refused index h

/-! ## The plan -/

/-- One more move in front of a plan is refused if there is no way, or if the value would have to be
    popped from beneath what stays. -/
theorem decides_add (plan : MovePlan) (index : Nat) {p : Move} (hp : p.IsStorable) :
    Decides (p.route ≠ .blocked ∧ (p.Popped → plan.keptOnStack = false))
      (plan.add index p.1 p.2) := by
  obtain ⟨⟨f, hf⟩, g, hg⟩ := hp
  rw [Move.popped_iff]
  cases hr : p.route with
  | keep =>
    rw [add_of_adds (.keep hr)]
    exact .done _ (by simp)
  | popInto slot =>
    cases hk : plan.keptOnStack with
    | false =>
      rw [add_of_adds (.popInto hr hk hg)]
      exact .done _ (by simp)
    | true =>
      rw [add_of_buried hr hk]
      exact .refused index (by simp)
  | rest slot =>
    rw [add_of_adds (.rest hr hg)]
    exact .done _ (by simp)
  | carry a b =>
    rw [add_of_adds (.carry hr hf hg)]
    exact .done _ (by simp)
  | push slot =>
    rw [add_of_adds (.push hr hf)]
    exact .done _ (by simp)
  | fixed =>
    rw [add_of_adds (.fixed hr)]
    exact .done _ (by simp)
  | blocked =>
    rw [add_of_blocked hr]
    exact .refused index (by simp)

theorem Adds.keptOnStack_iff {index : Nat} {p : Move} {plan plan' : MovePlan}
    (h : Adds index p.1 p.2 plan plan') :
    plan'.keptOnStack = true ↔ p.Kept ∨ plan.keptOnStack = true := by
  rw [Move.kept_iff]
  cases h with
  | keep hr => simp [Move.route, hr]
  | _ hr => simp [Move.route, hr]

/-- A plan knows whether a value stays on the stack. -/
theorem keptOnStack_iff_of_ofPairs {moves : List Move} {index : Nat} {plan : MovePlan}
    (h : ofPairs index moves = .ok plan) : plan.keptOnStack = true ↔ ∃ q ∈ moves, q.Kept := by
  induction moves generalizing index plan with
  | nil =>
    cases h
    simp
  | cons p moves ih =>
    obtain ⟨plan', hp, ha⟩ := exists_of_ofPairs h
    rw [ha.keptOnStack_iff, ih hp, List.exists_mem_cons_iff]

/-- A plan is made exactly if all values have a way and none is popped from beneath one that
    stays. -/
theorem decides_ofPairs {moves : List Move} (index : Nat) (hm : ∀ p ∈ moves, p.IsStorable) :
    Decides ((∀ p ∈ moves, p.route ≠ .blocked) ∧ moves.Pairwise fun p q => ¬(p.Popped ∧ q.Kept))
      (ofPairs index moves) := by
  induction moves generalizing index with
  | nil => exact .done _ (by simp)
  | cons p moves ih =>
    obtain ⟨hp, hms⟩ := List.forall_mem_cons.mp hm
    have hfirst (plan : MovePlan) (h : ofPairs (index + 1) moves = .ok plan) :
        Decides (p.route ≠ .blocked ∧ ∀ q ∈ moves, ¬(p.Popped ∧ q.Kept))
          (plan.add index p.1 p.2) := by
      refine (decides_add plan index hp).of_iff (and_congr_right fun _ => ?_)
      rw [← Bool.not_eq_true, keptOnStack_iff_of_ofPairs h]
      simp only [not_exists, not_and]
      exact ⟨fun h q hq hpop => h hpop q hq, fun h hpop q hq => h q hq hpop⟩
    rw [ofPairs_cons, List.forall_mem_cons, List.pairwise_cons, and_and_and_comm]
    exact ((ih (index + 1) hms).bind hfirst).of_iff and_comm

/-! ## What is pushed -/

theorem stackLoads_of_pushed {p : Move} (hs : p.IsStorable) (hp : p.Pushed) (moves : List Move)
    (loaded : Bool) (index : Nat) : ∃ load, stackLoads loaded index (p :: moves) =
      (stackLoads true (index + 1) moves).map (load :: ·) := by
  obtain ⟨⟨family, hf⟩, -⟩ := hs
  obtain ⟨slot, hr⟩ : ∃ slot, p.1.routeTo p.2 = .push slot := Move.pushed_iff.mp hp
  refine ⟨.load family slot, ?_⟩
  rw [stackLoads_cons, hr]
  dsimp only
  rw [Instruction.loadOf_eq_ok slot hf]
  rfl

theorem stackLoads_of_kept {p : Move} (hk : p.Kept) (moves : List Move) (loaded : Bool)
    (index : Nat) : stackLoads loaded index (p :: moves) =
      if loaded then .error (.unbindable index) else stackLoads loaded (index + 1) moves := by
  have hr : p.1.routeTo p.2 = .keep := Move.kept_iff.mp hk
  rw [stackLoads_cons, hr]

theorem stackLoads_of_neither {p : Move} (hp : ¬p.Pushed) (hk : ¬p.Kept) (moves : List Move)
    (loaded : Bool) (index : Nat) :
    stackLoads loaded index (p :: moves) = stackLoads loaded (index + 1) moves := by
  rw [stackLoads_cons]
  cases hr : p.1.routeTo p.2 with
  | push slot => exact (hp (Move.pushed_iff.mpr ⟨slot, hr⟩)).elim
  | keep => exact (hk (Move.kept_iff.mpr hr)).elim
  | _ => rfl

/-- Values are pushed exactly if none of them would have to go beneath one that stays. -/
theorem decides_stackLoads {moves : List Move} (loaded : Bool) (index : Nat)
    (hm : ∀ p ∈ moves, p.IsStorable) :
    Decides ((loaded = true → ∀ q ∈ moves, ¬q.Kept) ∧
      moves.Pairwise fun p q => ¬(p.Pushed ∧ q.Kept)) (stackLoads loaded index moves) := by
  induction moves generalizing loaded index with
  | nil => exact .done _ (by simp)
  | cons p moves ih =>
    obtain ⟨hs, hms⟩ := List.forall_mem_cons.mp hm
    rw [List.forall_mem_cons, List.pairwise_cons]
    by_cases hp : p.Pushed
    · have hk : ¬p.Kept := fun hk => by cases hp.1.symm.trans hk.1
      obtain ⟨load, h⟩ := stackLoads_of_pushed hs hp moves loaded index
      rw [h]
      refine ((ih true (index + 1) hms).map _).of_iff ?_
      simp only [hp, hk, not_false_eq_true, true_and, forall_const]
      exact ⟨fun h => ⟨fun _ => h.1, h⟩, And.right⟩
    · by_cases hk : p.Kept
      · rw [stackLoads_of_kept hk]
        cases loaded with
        | true => exact .refused index (by simp [hk])
        | false => exact (ih false (index + 1) hms).of_iff (by simp [hp])
      · rw [stackLoads_of_neither hp hk]
        exact (ih loaded (index + 1) hms).of_iff (by simp [hp, hk])

/-! ## Slots that meet -/

theorem decides_instructions (plan : MovePlan) (loads : List Instruction) :
    Decides (loads = [] ∨ plan.clobbering? = none) (plan.instructions loads) := by
  unfold instructions
  cases hc : plan.clobbering? with
  | none => exact .done _ (.inr rfl)
  | some index =>
    dsimp only
    split
    · next hl => exact .done _ (.inl hl)
    · next hl => exact .refused index (by simp [hl])

end MovePlan

/-- Values meet exactly if their slots are not apart. -/
theorem FlowValue.meets_iff {v w : FlowValue} {x y : MachineValue}
    (hv : StorageClass.ofType v.type = .ok x.family)
    (hw : StorageClass.ofType w.type = .ok y.family) :
    v.Meets w ↔ ∃ a b, v.location = .localSlot a ∧ w.location = .localSlot b ∧
      ¬Apart (a, x) (b, y) := by
  unfold Meets Occupies Apart MachineValue.width
  constructor
  · rintro ⟨n, ⟨a, f, ha, hf, han, hna⟩, b, g, hb, hg, hbn, hnb⟩
    obtain rfl := Except.ok.inj (hv.symm.trans hf)
    obtain rfl := Except.ok.inj (hw.symm.trans hg)
    refine ⟨a, b, ha, hb, ?_⟩
    dsimp only
    omega
  · rintro ⟨a, b, ha, hb, h⟩
    have hx : 0 < x.family.width := x.width_pos
    have hy : 0 < y.family.width := y.width_pos
    dsimp only at h
    exact ⟨max a.toNat b.toNat, ⟨a, _, ha, hv, by omega, by omega⟩, b, _, hb, hw, by omega,
      by omega⟩

namespace Transfer

variable {ts : List Transfer}

/-- The move that the transfer makes. -/
abbrev move (t : Transfer) : Move :=
  (t.source, t.target)

/-- A machine value can be found for every value that is moved. -/
theorem exists_of_assignable {source target : List FlowValue}
    (ha : List.Forall₂ FlowValue.Assignable source target)
    (hs : ∀ v ∈ target, v.type.IsStorable) (hfs : ∀ v ∈ source, v.FitsSlots)
    (hft : ∀ v ∈ target, v.FitsSlots) :
    ∃ ts : List Transfer, source.zip target = ts.map move ∧
      ∀ t ∈ ts, t.Sound ∧ StorageClass.ofType t.target.type = .ok t.value.family := by
  induction ha with
  | nil => exact ⟨[], rfl, by simp⟩
  | @cons v w source target hvw _ ih =>
    obtain ⟨⟨family, hw⟩, hs⟩ := List.forall_mem_cons.mp hs
    obtain ⟨hfv, hfs⟩ := List.forall_mem_cons.mp hfs
    obtain ⟨hfw, hft⟩ := List.forall_mem_cons.mp hft
    obtain ⟨ts, hz, hts⟩ := ih hs hfs hft
    obtain ⟨x, hx⟩ := family.exists_value
    have hv := JavaType.storageClass_of_isAssignable hvw hw
    have hsound : Sound ⟨x, v, w⟩ :=
      ⟨fun f hf => hx.trans (Except.ok.inj (hv.symm.trans hf)), hvw, hfv, hfw⟩
    refine ⟨⟨x, v, w⟩ :: ts, by rw [List.zip_cons_cons, hz]; rfl, ?_⟩
    exact List.forall_mem_cons.mpr ⟨⟨hsound, hx ▸ hw⟩, hts⟩

theorem placed_pushed_eq_nil_iff :
    placed Route.pushedFrom? ts = [] ↔ ∀ p ∈ ts.map move, ¬p.Pushed := by
  unfold placed
  rw [List.filterMap_eq_nil_iff, List.forall_mem_map]
  refine forall₂_congr fun t _ => ?_
  rw [Option.map_eq_none_iff, Option.eq_none_iff_forall_ne_some, Move.pushed_iff, not_exists]
  exact forall_congr' fun slot => not_congr Route.pushedFrom?_eq_some_iff

theorem pairwise_written_iff
    (hts : ∀ t ∈ ts, StorageClass.ofType t.target.type = .ok t.value.family)
    (hb : ∀ t ∈ ts, t.route ≠ .blocked) :
    (placed Route.writtenTo? ts).Pairwise Apart ↔
      (ts.map move).Pairwise fun p q => ¬p.2.Meets q.2 := by
  unfold placed
  rw [List.pairwise_filterMap, List.pairwise_map]
  refine List.Pairwise.iff_of_mem fun {t u} ht hu => ?_
  have ht' := (FlowValue.places_of_route (hb t ht)).2.2.2
  have hu' := (FlowValue.places_of_route (hb u hu)).2.2.2
  rw [FlowValue.meets_iff (hts t ht) (hts u hu)]
  simp only [ht', hu', Option.map_eq_some_iff]
  constructor
  · rintro h ⟨a, b, ha, hb, hn⟩
    exact hn (h _ ⟨a, ha, rfl⟩ _ ⟨b, hb, rfl⟩)
  · rintro h _ ⟨a, ha, rfl⟩ _ ⟨b, hb, rfl⟩
    by_contra hn
    exact h ⟨a, b, ha, hb, hn⟩

theorem popped_apart_read_iff
    (hts : ∀ t ∈ ts, t.Sound ∧ StorageClass.ofType t.target.type = .ok t.value.family)
    (hb : ∀ t ∈ ts, t.route ≠ .blocked) :
    (∀ a ∈ placed Route.poppedInto? ts, ∀ b ∈ placed Route.readFrom? ts, Apart a b) ↔
      ∀ q ∈ ts.map move, q.Popped → ∀ r ∈ ts.map move, r.Read → ¬q.2.Meets r.1 := by
  have hsource : ∀ t ∈ ts, StorageClass.ofType t.source.type = .ok t.value.family := fun t ht =>
    JavaType.storageClass_of_isAssignable (hts t ht).1.assignable (hts t ht).2
  simp only [List.forall_mem_map]
  constructor
  · intro h t ht hq u hu hr hm
    obtain ⟨a, b, hta, hub, hn⟩ := (FlowValue.meets_iff (hts t ht).2 (hsource u hu)).mp hm
    obtain ⟨slot, hq⟩ := Move.popped_iff.mp hq
    obtain ⟨slot', hr⟩ := (Move.read_iff (hb u hu)).mp hr
    have hq' := Route.poppedInto?_eq_some_iff.mpr hq
    have hta' := ((FlowValue.places_of_route (hb t ht)).2.2.2 slot).mpr
      (Route.writtenTo?_of_poppedInto? _ _ hq')
    have hub' := ((FlowValue.places_of_route (hb u hu)).2.2.1 slot').mpr
      (Route.heldIn?_of_readFrom? _ _ hr)
    cases hta.symm.trans hta'
    cases hub.symm.trans hub'
    exact hn (h _ (mem_placed.mpr ⟨t, ht, hq', rfl⟩) _ (mem_placed.mpr ⟨u, hu, hr, rfl⟩))
  · intro h a ha b hb'
    obtain ⟨t, ht, hq, hv⟩ := mem_placed.mp ha
    obtain ⟨u, hu, hr, hw⟩ := mem_placed.mp hb'
    have hta := ((FlowValue.places_of_route (hb t ht)).2.2.2 a.1).mpr
      (Route.writtenTo?_of_poppedInto? _ _ hq)
    have hub := ((FlowValue.places_of_route (hb u hu)).2.2.1 b.1).mpr
      (Route.heldIn?_of_readFrom? _ _ hr)
    by_contra hn
    refine h t ht (Move.popped_iff.mpr ⟨a.1, Route.poppedInto?_eq_some_iff.mp hq⟩) u hu
      ((Move.read_iff (hb u hu)).mpr ⟨b.1, hr⟩) ?_
    refine (FlowValue.meets_iff (hts t ht).2 (hsource u hu)).mpr ⟨a.1, b.1, hta, hub, ?_⟩
    rw [hv, hw]
    exact hn

end Transfer

open Transfer

/-- Of values that are storable and may be used where they go, a move is refused exactly if there is
    a reason. -/
theorem MovePlan.decides_moveInstructions {source target : List FlowValue}
    (ha : List.Forall₂ FlowValue.Assignable source target)
    (hs : ∀ v ∈ source ++ target, v.type.IsStorable) (hf : ∀ v ∈ source ++ target, v.FitsSlots) :
    Decides (¬Unbindable (source.zip target)) (moveInstructions source target) := by
  obtain ⟨hss, hst⟩ := List.forall_mem_append.mp hs
  obtain ⟨hfs, hft⟩ := List.forall_mem_append.mp hf
  have hm : ∀ p ∈ source.zip target, Move.IsStorable p := fun p hp =>
    ⟨hss _ (List.of_mem_zip hp).1, hst _ (List.of_mem_zip hp).2⟩
  rw [moveInstructions_eq]
  obtain ⟨ts, hz, hts⟩ := exists_of_assignable ha hst hfs hft
  rw [hz] at hm ⊢
  refine ((decides_ofPairs 0 hm).bind fun plan hplan => ?_).of_iff not_unbindable_iff.symm
  have hb : ∀ t ∈ ts, t.route ≠ .blocked := fun t ht =>
    unblocked_of_ofPairs hplan _ (List.mem_map_of_mem ht)
  have hd := describes_of_ofPairs (fun t ht => (hts t ht).1) hplan
  have hwritten := hd.collision?_eq_none_iff.trans
    (pairwise_written_iff (fun t ht => (hts t ht).2) hb)
  cases hc : collision? plan.written with
  | some index => exact .refused index fun h => by cases hc.symm.trans (hwritten.mpr h.1)
  | none =>
    have hloads : Decides ((ts.map move).Pairwise fun p q => ¬(p.Pushed ∧ q.Kept))
        (stackLoads false 0 (ts.map move)) := (decides_stackLoads false 0 hm).of_iff (by simp)
    refine (hloads.bind fun loads hl => ?_).of_iff (and_iff_right (hwritten.mp hc)).symm
    refine (decides_instructions plan loads).of_iff (or_congr ?_ ?_)
    · rw [(loads_of_stackLoads (fun t ht => ⟨(hts t ht).1, hb t ht⟩) hl).1, List.map_eq_nil_iff,
        placed_pushed_eq_nil_iff]
    · exact hd.clobbering?_eq_none_iff.trans (popped_apart_read_iff hts hb)

/-- Moving values fails for one of them exactly if there is a reason, and succeeds exactly if there
    is none. -/
theorem moveValues_unbindable_iff {source target : List FlowValue}
    (ha : List.Forall₂ FlowValue.Assignable source target)
    (hs : ∀ v ∈ source ++ target, v.type.IsStorable) (hf : ∀ v ∈ source ++ target, v.FitsSlots) :
    ((∃ index, moveValues source target = .error (.unbindable index)) ↔
        Unbindable (source.zip target)) ∧
      ((∃ code, moveValues source target = .ok code) ↔ ¬Unbindable (source.zip target)) := by
  have hd : Decides (¬Unbindable (source.zip target)) (moveValues source target) := by
    rw [moveValues_eq]
    exact (decides_moveInstructions ha hs hf).map _
  exact ⟨hd.exists_unbindable_iff.trans not_not, hd.exists_ok_iff⟩

/-- A number on the stack has to go to the slot that an object is pushed from.  The store waits for
    the load, and then the object lies on top of the number. -/
theorem moveValues_unbindable_pushed :
    ∃ source target : List FlowValue,
      source.map FlowValue.location = [.localSlot 1, .stack 0] ∧
      target.map FlowValue.location = [.stack 0, .localSlot 1] ∧
      ∃ index, moveValues source target = .error (.unbindable index) := by
  have ha : List.Forall₂ FlowValue.Assignable
      [⟨.string, .localSlot 1, none⟩, ⟨.primitive .int, .stack 0, none⟩]
      [⟨.object, .stack 0, none⟩, ⟨.primitive .int, .localSlot 1, none⟩] :=
    .cons rfl (.cons rfl .nil)
  refine ⟨_, _, rfl, rfl, (moveValues_unbindable_iff ha ?_ ?_).1.mpr ?_⟩
  · intro v hv
    simp only [List.cons_append, List.nil_append, List.mem_cons, List.not_mem_nil, or_false] at hv
    rcases hv with rfl | rfl | rfl | rfl
    · exact ⟨.reference, rfl⟩
    · exact ⟨.int, rfl⟩
    · exact ⟨.reference, rfl⟩
    · exact ⟨.int, rfl⟩
  · intro v hv slot family hl hf
    simp only [List.cons_append, List.nil_append, List.mem_cons, List.not_mem_nil, or_false] at hv
    rcases hv with rfl | rfl | rfl | rfl <;> cases hl <;> cases hf <;> decide
  · have hone (type : JavaType) (family : StorageClass)
        (h : StorageClass.ofType type = .ok family) :
        FlowValue.Occupies ⟨type, .localSlot 1, none⟩ 1 :=
      ⟨1, family, rfl, h, by decide, by cases family <;> decide⟩
    exact .clobbering List.mem_cons_self (List.mem_cons_of_mem _ List.mem_cons_self)
      List.mem_cons_self ⟨rfl, rfl⟩ ⟨rfl, rfl⟩ ⟨rfl, nofun⟩
      ⟨1, hone (.primitive .int) .int rfl, hone .string .reference rfl⟩

end JvmWeave
