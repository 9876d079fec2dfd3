import JvmWeave.Proofs.Reachability

/-!
# Outcomes and runs

A run of a tree goes from leaf to leaf.  It leaves the tree as soon as a leaf throws or returns, and
falls through if no leaf does.  The outcome of a tree is computed without following any run: it also
counts leaves that no run comes to.  So it may allow too many exits, but it never misses one, and on
falling through it is exact.

Bodies only group leaves.  `Regroups` is the relation between lists of fragments that differ in how
their leaves are grouped, and it is exactly equality of the leaves (`regroups_iff`), which are all
that the outcome depends on.
-/

set_option autoImplicit false

namespace JvmWeave

/-- A way in which one run leaves a piece of code. -/
inductive Exit where
  | onward
  | thrown
  | returned
  deriving DecidableEq, Repr

namespace Outcome

/-- Whether a run can leave in this way. -/
def allows (o : Outcome) : Exit → Bool
  | .onward => o.fallsThrough
  | .thrown => o.throws
  | .returned => o.returns

/-! ## Sequences -/

@[simp] theorem onward_andThen (o : Outcome) : onward.andThen o = o := by
  simp [andThen, onward]

@[simp] theorem andThen_onward (o : Outcome) : o.andThen onward = o := by
  simp [andThen, onward]

theorem andThen_assoc (a b c : Outcome) : (a.andThen b).andThen c = a.andThen (b.andThen c) := by
  simp [andThen, Bool.and_assoc, Bool.or_assoc]

instance : Std.Associative andThen :=
  ⟨andThen_assoc⟩

@[simp] theorem sequence_nil : sequence [] = onward :=
  rfl

@[simp] theorem sequence_cons (o : Outcome) (parts : List Outcome) :
    sequence (o :: parts) = o.andThen (sequence parts) := by
  calc sequence (o :: parts) = parts.foldl andThen (o.andThen onward) := by simp [sequence]
    _ = o.andThen (sequence parts) := List.foldl_assoc

theorem sequence_append (as bs : List Outcome) :
    sequence (as ++ bs) = (sequence as).andThen (sequence bs) := by
  induction as with
  | nil => simp
  | cons a as ih => simp [ih, andThen_assoc]

/-- Whatever the rest allows is allowed, unless it is going on. -/
theorem allows_andThen_of_right {a b : Outcome} {e : Exit} (h : b.allows e = true)
    (ha : a.fallsThrough = true) : (a.andThen b).allows e = true := by
  cases e <;> simp_all [allows, andThen]

theorem allows_andThen_of_left {a b : Outcome} {e : Exit} (h : a.allows e = true)
    (he : e ≠ .onward) : (a.andThen b).allows e = true := by
  cases e with
  | onward => exact absurd rfl he
  | thrown => simp_all [allows, andThen]
  | returned => simp_all [allows, andThen]

end Outcome

namespace Fragment

/-! ## Runs -/

mutual

/-- A run of the fragment ends with the exit.  A leaf has the exits that its own outcome allows. -/
inductive Exits : Fragment → Exit → Prop
  | leaf {action : Action} {flow : Flow} {e : Exit} (h : action.outcome.allows e = true) :
    Exits (leaf action flow) e
  | body {children : List Fragment} {flow : Flow} {e : Exit} (h : ExitsInOrder children e) :
    Exits (body children flow) e

/-- A run of the fragments, one after another, ends with the exit. -/
inductive ExitsInOrder : List Fragment → Exit → Prop
  | done : ExitsInOrder [] .onward
  | next {f : Fragment} {fs : List Fragment} {e : Exit} (h : Exits f .onward)
    (hs : ExitsInOrder fs e) : ExitsInOrder (f :: fs) e
  /-- What throws or returns ends the run. -/
  | stop {f : Fragment} {fs : List Fragment} {e : Exit} (h : Exits f e) (he : e ≠ .onward) :
    ExitsInOrder (f :: fs) e

end

mutual

/-- Runs have no exits but those that the outcome allows. -/
theorem Exits.allows : ∀ {f : Fragment} {e : Exit}, f.Exits e → f.outcome.allows e = true
  | _, _, .leaf h => h
  | _, _, .body h => h.allows

theorem ExitsInOrder.allows : ∀ {fs : List Fragment} {e : Exit}, ExitsInOrder fs e →
    (Outcome.sequence (outcomes fs)).allows e = true
  | _, _, .done => rfl
  | _, _, .next h hs => by
    rw [outcomes, Outcome.sequence_cons]
    exact Outcome.allows_andThen_of_right hs.allows h.allows
  | _, _, .stop h he => by
    rw [outcomes, Outcome.sequence_cons]
    exact Outcome.allows_andThen_of_left h.allows he

end

mutual

/-- Where all leaves can go on there is a run that does. -/
theorem exits_onward : ∀ {f : Fragment}, f.outcome.fallsThrough = true → f.Exits .onward
  | leaf _ _, h => .leaf h
  | body _ _, h => .body (exitsInOrder_onward (fallsThrough_body.mp h))

theorem exitsInOrder_onward : ∀ {fs : List Fragment},
    (∀ f ∈ fs, f.outcome.fallsThrough = true) → ExitsInOrder fs .onward
  | [], _ => .done
  | f :: fs, h => by
    obtain ⟨hf, hfs⟩ := List.forall_mem_cons.mp h
    exact .next (exits_onward hf) (exitsInOrder_onward hfs)

end

theorem exits_onward_iff {f : Fragment} : f.Exits .onward ↔ f.outcome.fallsThrough = true :=
  ⟨Exits.allows, exits_onward⟩

/-! ## Leaves -/

mutual

/-- The fragments without parts in the fragment, in the order in which they run. -/
def leaves : Fragment → List Fragment
  | leaf action flow => [leaf action flow]
  | body children _ => leavesInOrder children

def leavesInOrder : List Fragment → List Fragment
  | [] => []
  | f :: fs => f.leaves ++ leavesInOrder fs

end

@[simp] theorem leavesInOrder_append (fs gs : List Fragment) :
    leavesInOrder (fs ++ gs) = leavesInOrder fs ++ leavesInOrder gs := by
  induction fs with
  | nil => simp [leavesInOrder]
  | cons f fs ih => simp [leavesInOrder, ih]

mutual

/-- The outcome is that of the leaves one after another. -/
theorem outcome_eq_sequence_leaves : ∀ f : Fragment,
    f.outcome = .sequence (f.leaves.map outcome)
  | leaf action flow => by simp [leaves]
  | body children flow => by
    rw [outcome, leaves]
    exact sequence_outcomes children

theorem sequence_outcomes : ∀ fs : List Fragment,
    Outcome.sequence (outcomes fs) = .sequence ((leavesInOrder fs).map outcome)
  | [] => rfl
  | f :: fs => by
    rw [outcomes, leavesInOrder, Outcome.sequence_cons, List.map_append, Outcome.sequence_append,
      ← outcome_eq_sequence_leaves f, sequence_outcomes fs]

end

/-! ## Groups -/

/-- The leaves are grouped into bodies in another way. -/
inductive Regroups : List Fragment → List Fragment → Prop
  | refl (fs : List Fragment) : Regroups fs fs
  | symm {fs gs : List Fragment} (h : Regroups fs gs) : Regroups gs fs
  | trans {fs gs ks : List Fragment} (h : Regroups fs gs) (h' : Regroups gs ks) : Regroups fs ks
  /-- Neighbours become a body.  Without any neighbours this puts an empty body in between. -/
  | nest (before inner after : List Fragment) (flow : Flow) :
    Regroups (before ++ inner ++ after) (before ++ body inner flow :: after)
  | inside (before after : List Fragment) (flow : Flow) {inner inner' : List Fragment}
    (h : Regroups inner inner') :
    Regroups (before ++ body inner flow :: after) (before ++ body inner' flow :: after)

namespace Regroups

theorem leaves_eq {fs gs : List Fragment} (h : Regroups fs gs) :
    leavesInOrder fs = leavesInOrder gs := by
  induction h with
  | refl => rfl
  | symm _ ih => exact ih.symm
  | trans _ _ ih ih' => exact ih.trans ih'
  | nest => simp [leavesInOrder, leaves]
  | inside _ _ _ _ ih => simp [leavesInOrder, leaves, ih]

/-- Fragments before the regrouped ones stay. -/
theorem append_left (ks : List Fragment) {fs gs : List Fragment} (h : Regroups fs gs) :
    Regroups (ks ++ fs) (ks ++ gs) := by
  induction h with
  | refl => exact .refl _
  | symm _ ih => exact ih.symm
  | trans _ _ ih ih' => exact ih.trans ih'
  | nest before inner after flow =>
    simpa using nest (ks ++ before) inner after flow
  | inside before after flow h _ => simpa using inside (ks ++ before) after flow h

/-- A body can be opened. -/
theorem flatten (inner after : List Fragment) (flow : Flow) :
    Regroups (body inner flow :: after) (inner ++ after) :=
  (nest [] inner after flow).symm

/-- All bodies can be opened. -/
theorem toLeaves : ∀ fs : List Fragment, Regroups fs (leavesInOrder fs)
  | [] => .refl _
  | leaf action flow :: fs => (toLeaves fs).append_left [leaf action flow]
  | body children flow :: fs => by
    have hopened : Regroups (body children flow :: fs)
        (body (leavesInOrder children) flow :: fs) := inside [] fs flow (toLeaves children)
    have hrest : Regroups (leavesInOrder children ++ fs)
        (leavesInOrder children ++ leavesInOrder fs) := (toLeaves fs).append_left _
    exact hopened.trans ((flatten _ fs flow).trans hrest)

end Regroups

/-- Fragments can be regrouped into others exactly if they have the same leaves. -/
theorem regroups_iff {fs gs : List Fragment} :
    Regroups fs gs ↔ leavesInOrder fs = leavesInOrder gs := by
  constructor
  · exact Regroups.leaves_eq
  · intro h
    have hfs := Regroups.toLeaves fs
    rw [h] at hfs
    exact hfs.trans (Regroups.toLeaves gs).symm

/-- The outcome allows all that runs do, it says whether there is a run that goes on, and it does
    not depend on how the leaves are grouped. -/
theorem outcome_describes_runs (f : Fragment) :
    (∀ e, f.Exits e → f.outcome.allows e = true) ∧
      (f.Exits .onward ↔ f.outcome.fallsThrough = true) ∧
      ∀ g : Fragment, (Regroups [f] [g] ↔ f.leaves = g.leaves) ∧
        (f.leaves = g.leaves → f.outcome = g.outcome) := by
  refine ⟨fun e => Exits.allows, exits_onward_iff, ?_⟩
  intro g
  constructor
  · rw [regroups_iff]
    simp [leavesInOrder]
  · intro h
    rw [outcome_eq_sequence_leaves f, outcome_eq_sequence_leaves g, h]

/-- A call and a return, in a body of their own and with an empty body behind them. -/
def nestedReturn : Fragment :=
  body [body [lookup 1, returning none] ⟨[], []⟩, body [] ⟨[], []⟩] ⟨[], []⟩

theorem exits_nestedReturn : nestedReturn.Exits .returned ∧ nestedReturn.Exits .thrown := by
  constructor
  · exact .body (.stop (.body (.next (.leaf rfl) (.stop (.leaf rfl) nofun))) nofun)
  · exact .body (.stop (.body (.stop (.leaf rfl) nofun)) nofun)

/-- The call may throw and the return returns, so that nothing goes on, and without the inner bodies
    it is the same. -/
theorem nestedReturn_describes_runs :
    nestedReturn.outcome.allows .returned = true ∧ nestedReturn.outcome.allows .thrown = true ∧
      ¬nestedReturn.Exits .onward ∧
      Regroups [nestedReturn] [body [lookup 1, returning none] ⟨[], []⟩] ∧
      nestedReturn.outcome = (body [lookup 1, returning none] ⟨[], []⟩).outcome := by
  obtain ⟨hallowed, honward, hgroups⟩ := outcome_describes_runs nestedReturn
  have hleaves : nestedReturn.leaves = (body [lookup 1, returning none] ⟨[], []⟩).leaves := rfl
  obtain ⟨hregroups, hsame⟩ := hgroups (body [lookup 1, returning none] ⟨[], []⟩)
  refine ⟨hallowed _ exits_nestedReturn.1, hallowed _ exits_nestedReturn.2, ?_,
    hregroups.mpr hleaves, hsame hleaves⟩
  rw [honward]
  decide

end Fragment
end JvmWeave
