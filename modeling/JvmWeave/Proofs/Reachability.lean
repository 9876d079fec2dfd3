import JvmWeave.Fragment.Patch
import JvmWeave.Proofs.Insertion
import JvmWeave.Proofs.MovePlan

/-!
# Replacements keep code reachable

Whether control can go on past a fragment is asked of its leaves: a body goes on exactly if all of
its parts do.  A replacement is only compared with the fragment that it replaces, however deep that
lies.  This is enough.  The code that is put around a replacement loads and stores and so always
goes on, and a body whose parts go on whenever they did before goes on whenever it did before.

`OverwritesTo` is the relation between a tree and all that replacements can make of it, and
`fallsThrough_of_overwritesTo` the induction over it.
-/

set_option autoImplicit false

namespace JvmWeave

/-! ## Sequences of outcomes -/

namespace Outcome

theorem fallsThrough_foldl (o : Outcome) (parts : List Outcome) :
    (parts.foldl andThen o).fallsThrough =
      (o.fallsThrough && parts.all fun p => p.fallsThrough) := by
  induction parts generalizing o with
  | nil => simp
  | cons p parts ih => simp [ih, andThen, Bool.and_assoc]

/-- Code goes on past a sequence exactly if it goes on past every part. -/
theorem fallsThrough_sequence {parts : List Outcome} :
    (sequence parts).fallsThrough = true ↔ ∀ p ∈ parts, p.fallsThrough = true := by
  simp [sequence, fallsThrough_foldl, onward]

end Outcome

namespace Fragment

theorem outcomes_eq_map (fs : List Fragment) : outcomes fs = fs.map outcome := by
  induction fs with
  | nil => rfl
  | cons f fs ih => rw [outcomes, ih, List.map_cons]

theorem fallsThrough_body {children : List Fragment} {flow : Flow} :
    (body children flow).outcome.fallsThrough = true ↔
      ∀ c ∈ children, c.outcome.fallsThrough = true := by
  rw [outcome, Outcome.fallsThrough_sequence, outcomes_eq_map]
  simp

theorem fallsThrough_run {is : List Instruction} {inputs outputs : List FlowValue} :
    (run is inputs outputs).outcome.fallsThrough = true ↔
      ∀ i ∈ is, i.outcome.fallsThrough = true := by
  rw [run, outcome, Action.outcome, Outcome.fallsThrough_sequence]
  simp

end Fragment

/-! ## Moves go on -/

/-- Whether the instruction loads or stores a local slot. -/
def Instruction.IsMove (i : Instruction) : Prop :=
  ∃ family slot, i = .load family slot ∨ i = .store family slot

theorem Instruction.IsMove.fallsThrough {i : Instruction} (h : i.IsMove) :
    i.outcome.fallsThrough = true := by
  obtain ⟨family, slot, rfl | rfl⟩ := h <;> rfl

namespace MovePlan

theorem Accounted.isMove {make : StorageClass → UInt16 → Instruction} {is : List Instruction}
    {slots : List (Nat × SlotRange)} (h : Accounted make is slots)
    (hmake : ∀ family slot, (make family slot).IsMove) : ∀ i ∈ is, i.IsMove := by
  intro i hi
  obtain ⟨family, slot, index, rfl, -⟩ := h i hi
  exact hmake family slot

theorem isMove_of_moveInstructions {source target : List FlowValue} {is : List Instruction}
    (h : moveInstructions source target = .ok is) : ∀ i ∈ is, i.IsMove := by
  obtain ⟨plan, loads, hp, -, hl, hi⟩ := moveInstructions_eq_ok_iff.mp h
  obtain ⟨hstores, hslotLoads, hslotStores⟩ := accounts_of_ofPairs hp
  have hload (family : StorageClass) (slot : UInt16) : (Instruction.load family slot).IsMove :=
    ⟨family, slot, .inl rfl⟩
  have hstore (family : StorageClass) (slot : UInt16) : (Instruction.store family slot).IsMove :=
    ⟨family, slot, .inr rfl⟩
  have hst := hstores.isMove hstore
  have hsl := hslotLoads.isMove hload
  have hss := hslotStores.isMove hstore
  have hloads := (accounted_of_stackLoads hp hl).isMove hload
  rcases orders_of_instructions hi with ⟨-, rfl⟩ | ⟨-, rfl⟩
  · simp only [List.forall_mem_append]
    exact ⟨⟨⟨hst, hloads⟩, hsl⟩, hss⟩
  · simp only [List.forall_mem_append]
    exact ⟨⟨hsl, hss⟩, hst⟩

end MovePlan

/-- Code that moves values goes on. -/
theorem fallsThrough_of_moveValues {source target : List FlowValue} {code : Option Fragment}
    (h : moveValues source target = .ok code) :
    ∀ f ∈ code, f.outcome.fallsThrough = true := by
  obtain ⟨is, hi, rfl⟩ := moveValues_eq_ok_iff.mp h
  intro f hf
  split at hf
  · cases hf
  · cases hf
    rw [Fragment.fallsThrough_run]
    exact fun i hm => (MovePlan.isMove_of_moveInstructions hi i hm).fallsThrough

namespace Fragment

/-! ## One replacement -/

/-- What takes the place of a fragment goes on if the fragment did. -/
theorem fallsThrough_overwrite {target replacement f : Fragment} {options : InsertOptions}
    (h : target.overwrite replacement options = .ok f)
    (ht : target.outcome.fallsThrough = true) : f.outcome.fallsThrough = true := by
  obtain ⟨ha, hr⟩ := overwrite_eq_ok_iff.mp h
  have hgo := ha.goesOn ht
  cases hr with
  | bare => exact hgo
  | bound hin hout =>
    rw [fallsThrough_body]
    intro c hc
    simp only [List.mem_append, Option.mem_toList, List.mem_singleton] at hc
    rcases hc with (hc | rfl) | hc
    · exact fallsThrough_of_moveValues hin c hc
    · exact hgo
    · exact fallsThrough_of_moveValues hout c hc

/-! ## Replacements inside of a tree -/

variable {σ ε : Type}

mutual

/-- A walk goes on if each edit leaves what goes on so. -/
theorem fallsThrough_editEach {kind : FragmentKind} {edit : Edit σ ε}
    (h : ∀ state f, f.outcome.fallsThrough = true →
      (edit state f).result.outcome.fallsThrough = true) :
    ∀ state f, f.outcome.fallsThrough = true →
      (editEach kind edit state f).result.outcome.fallsThrough = true
  | state, leaf action flow, hf => by
    rw [editEach]
    exact hf
  | state, body children flow, hf => by
    rw [editEach]
    have hparts := fallsThrough_body.mp hf
    exact fallsThrough_body.mpr (fallsThrough_editChildren h state children hparts)

theorem fallsThrough_editChildren {kind : FragmentKind} {edit : Edit σ ε}
    (h : ∀ state f, f.outcome.fallsThrough = true →
      (edit state f).result.outcome.fallsThrough = true) :
    ∀ state fs, (∀ c ∈ fs, c.outcome.fallsThrough = true) →
      ∀ c ∈ (editChildren kind edit state fs).result, c.outcome.fallsThrough = true
  | state, [], _ => by
    rw [editChildren]
    exact List.forall_mem_nil _
  | state, f :: fs, hfs => by
    obtain ⟨hf, hfs⟩ := List.forall_mem_cons.mp hfs
    have hinner : (editEach kind edit state f).result.outcome.fallsThrough = true :=
      fallsThrough_editEach h state f hf
    rw [editChildren]
    dsimp only
    -- The walk stops inside of the fragment, at the fragment, or later on.
    split
    · exact List.forall_mem_cons.mpr ⟨hinner, hfs⟩
    · have houter : (editIfKind kind edit (editEach kind edit state f).state
          (editEach kind edit state f).result).result.outcome.fallsThrough = true := by
        unfold editIfKind
        split
        · exact h _ _ hinner
        · exact hinner
      split
      · exact List.forall_mem_cons.mpr ⟨houter, hfs⟩
      · exact List.forall_mem_cons.mpr ⟨houter, fallsThrough_editChildren h _ fs hfs⟩

end

/-- What becomes of a fragment by replacements of itself and of fragments inside of it. -/
inductive OverwritesTo : Fragment → Fragment → Prop
  | refl (f : Fragment) : OverwritesTo f f
  | itself {target replacement f : Fragment} {options : InsertOptions}
      (h : target.insert replacement .overwrite options = .ok f) : OverwritesTo target f
  | part {before after : List Fragment} {flow : Flow} {f g : Fragment} (h : OverwritesTo f g) :
      OverwritesTo (body (before ++ f :: after) flow) (body (before ++ g :: after) flow)
  /-- A walk that replaces, whatever it visits and even if an error stops it. -/
  | walk {σ ε : Type} {kind : FragmentKind} {edit : Edit σ ε}
      (h : ∀ state f, OverwritesTo f (edit state f).result) (state : σ) (f : Fragment) :
      OverwritesTo f (editEach kind edit state f).result
  | trans {f g k : Fragment} (h : OverwritesTo f g) (h' : OverwritesTo g k) : OverwritesTo f k

/-- A tree that control can pass is never cut off by replacements. -/
theorem fallsThrough_of_overwritesTo {f g : Fragment} (h : f.OverwritesTo g)
    (hf : f.outcome.fallsThrough = true) : g.outcome.fallsThrough = true := by
  induction h with
  | refl f => exact hf
  | itself h => exact fallsThrough_overwrite h hf
  | part h ih =>
    rw [fallsThrough_body] at hf ⊢
    intro c hc
    simp only [List.mem_append, List.mem_cons] at hf hc
    rcases hc with hc | rfl | hc
    · exact hf c (.inl hc)
    · exact ih (hf _ (.inr (.inl rfl)))
    · exact hf c (.inr (.inr hc))
  | walk h state f ih => exact fallsThrough_editEach ih state f hf
  | trans h h' ih ih' => exact ih' (ih hf)

/-- The walk that inserts one fragment in place of all fragments of a kind, where it can. -/
theorem overwritesTo_insertEach (target inserted : Fragment) (kind : FragmentKind)
    (options : InsertOptions) :
    target.OverwritesTo (insertEach target inserted kind .overwrite options).result := by
  refine .walk (fun _ f => ?_) () target
  unfold insertion
  split
  · next h => exact .itself h
  · exact .refl f

/-- A call that takes an object from a slot and leaves one on the stack. -/
def lookup (slot : UInt16) : Fragment :=
  call .object "get" [⟨.object, .localSlot slot, none⟩] [⟨.object, .stack 0, none⟩]

/-- A call in two bodies is replaced by code with a call and a return, and then the call in there is
    replaced on a walk. -/
theorem fallsThrough_lookup_replaced :
    ∃ g, (body [body [lookup 1] ⟨[], []⟩] ⟨[], []⟩).OverwritesTo g ∧
      g.descendants.map kind = [.body, .body, .run, .body, .run, .yield] ∧
      g.outcome.fallsThrough = true := by
  have hinner : (body [lookup 1] ⟨[], []⟩).OverwritesTo _ :=
    @OverwritesTo.part [] [] ⟨[], []⟩ _ _ <|
      .itself (show (lookup 1).insert
        (body [lookup 2, returning (some ⟨.object, .stack 0, none⟩)]
          ⟨[⟨.object, .localSlot 2, none⟩], []⟩) .overwrite {} = .ok _ from rfl)
  have houter := @OverwritesTo.part [] [] ⟨[], []⟩ _ _ hinner
  have hwalk := houter.trans <| overwritesTo_insertEach _
    (run [.pushNull] [⟨.object, .localSlot 2, none⟩] [⟨.object, .stack 0, none⟩]) .call {}
  exact ⟨_, hwalk, rfl, fallsThrough_of_overwritesTo hwalk rfl⟩

end Fragment
end JvmWeave
