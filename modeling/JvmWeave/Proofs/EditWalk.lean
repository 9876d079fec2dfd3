import Mathlib.Data.List.Infix
import JvmWeave.Fragment.Patch
import JvmWeave.Proofs.Place

/-!
# What a walk visits

A walk edits a tree while it goes through it, and an edit may leave anything where it was called.
Still the visits are those of the tree that the walk began with.  A call only changes what is at its
place, and the places that come later in post-order are not inside of it: other parts are not
touched, and a body around keeps its shell, which is all that decides whether it is of the kind that
is asked for.

`Performs` is the relation between a tree, the calls that are made on it one after another, and what
they leave.  It knows nothing of walks.  The walk makes the calls at `places`, in that order, up to
the first one that fails (`editEach_visits`).
-/

set_option autoImplicit false

namespace JvmWeave
namespace Fragment

variable {σ ε : Type} {kind : FragmentKind} {edit : Edit σ ε}

/-! ## Calls -/

/-- One call of an edit: at which place, with which state and on which fragment. -/
structure Call (σ : Type) where
  place : List Nat
  state : σ
  given : Fragment

/-- The call, where the fragment that was the tree is now a part of a body. -/
def Call.inPart (i : Nat) (c : Call σ) : Call σ :=
  { c with place := i :: c.place }

/-- The edit is called on a tree as often as the list says.  Each call has the state that the one
    before has left, is given what is then at its place, and puts its result there.  A call that
    fails is the last one.  As all states are handed on, an edit that keeps a record of its calls in
    its state has exactly these in it. -/
inductive Performs (edit : Edit σ ε) : σ → Fragment → List (Call σ) → Edited σ ε Fragment → Prop
  | done (state : σ) (f : Fragment) : Performs edit state f [] ⟨state, f, none⟩
  | next {state : σ} {f g : Fragment} {place : List Nat} {calls : List (Call σ)}
      {edited : Edited σ ε Fragment} (hg : f.at? place = some g)
      (hok : (edit state g).error = none)
      (h : Performs edit (edit state g).state (replaceAt (edit state g).result place f) calls
        edited) :
      Performs edit state f (⟨place, state, g⟩ :: calls) edited
  | failed {state : σ} {f g : Fragment} {place : List Nat} {e : ε} (hg : f.at? place = some g)
      (he : (edit state g).error = some e) :
      Performs edit state f [⟨place, state, g⟩]
        ⟨(edit state g).state, replaceAt (edit state g).result place f, some e⟩

namespace Performs

theorem append {state state' : σ} {f f' : Fragment} {calls calls' : List (Call σ)}
    {edited : Edited σ ε Fragment} (h : Performs edit state f calls ⟨state', f', none⟩)
    (h' : Performs edit state' f' calls' edited) :
    Performs edit state f (calls ++ calls') edited := by
  generalize he : (⟨state', f', none⟩ : Edited σ ε Fragment) = middle at h
  induction h with
  | done =>
    cases he
    exact h'
  | next hg hok _ ih => exact .next hg hok (ih he)
  | failed => cases he

/-- Calls on a part are calls on the body. -/
theorem inPart {state : σ} {f : Fragment} {calls : List (Call σ)} {edited : Edited σ ε Fragment}
    (h : Performs edit state f calls edited) (before after : List Fragment) (flow : Flow) :
    Performs edit state (body (before ++ f :: after) flow)
      (calls.map (Call.inPart before.length))
      ⟨edited.state, body (before ++ edited.result :: after) flow, edited.error⟩ := by
  induction h with
  | done => exact .done _ _
  | next hg hok _ ih =>
    rw [← replaceAt_part] at ih
    exact .next ((at?_part ..).trans hg) hok ih
  | failed hg he =>
    have hfailed := @failed _ _ edit _ (body (before ++ _ :: after) flow) _ (before.length :: _) _
      ((at?_part ..).trans hg) he
    rw [replaceAt_part] at hfailed
    exact hfailed

/-- Where a call has failed, all calls before it have been made, and it is the last one. -/
theorem exists_last {state : σ} {f : Fragment} {calls : List (Call σ)}
    {edited : Edited σ ε Fragment} {e : ε} (h : Performs edit state f calls edited)
    (he : edited.error = some e) :
    ∃ earlier last before, calls = earlier ++ [last] ∧
      Performs edit state f earlier ⟨last.state, before, none⟩ ∧
      before.at? last.place = some last.given ∧ (edit last.state last.given).error = some e ∧
      edited.result = replaceAt (edit last.state last.given).result last.place before := by
  induction h with
  | done => cases he
  | next hg hok _ ih =>
    obtain ⟨earlier, last, before, rfl, hearlier, hrest⟩ := ih he
    exact ⟨_ :: earlier, last, before, rfl, .next hg hok hearlier, hrest⟩
  | failed hg he' =>
    cases he
    exact ⟨[], _, _, rfl, .done _ _, hg, he', rfl⟩

/-- What is not inside of the fragments that calls were made on keeps its shell. -/
theorem shell_at? {state : σ} {f : Fragment} {calls : List (Call σ)} {edited : Edited σ ε Fragment}
    (h : Performs edit state f calls edited) {place : List Nat}
    (hp : ∀ c ∈ calls, ¬c.place <+: place) :
    (edited.result.at? place).map shell = (f.at? place).map shell := by
  induction h with
  | done => rfl
  | next _ _ _ ih =>
    obtain ⟨hc, hcalls⟩ := List.forall_mem_cons.mp hp
    rw [ih hcalls, shell_at?_replaceAt hc]
  | failed => rw [shell_at?_replaceAt (hp _ List.mem_cons_self)]

/-- What has none of these fragments inside of it either stays. -/
theorem at?_eq {state : σ} {f : Fragment} {calls : List (Call σ)} {edited : Edited σ ε Fragment}
    (h : Performs edit state f calls edited) {place : List Nat}
    (hp : ∀ c ∈ calls, ¬c.place <+: place ∧ ¬place <+: c.place) :
    edited.result.at? place = f.at? place := by
  induction h with
  | done => rfl
  | next _ _ _ ih =>
    obtain ⟨⟨hc, hc'⟩, hcalls⟩ := List.forall_mem_cons.mp hp
    rw [ih hcalls, at?_replaceAt_of_apart hc hc']
  | failed =>
    obtain ⟨hc, hc'⟩ := hp _ List.mem_cons_self
    rw [at?_replaceAt_of_apart hc hc']

end Performs

/-! ## Places -/

/-- A fragment of the kind is inside of the tree, at the place. -/
structure Holds (f : Fragment) (kind : FragmentKind) (place : List Nat) (g : Fragment) : Prop where
  inside : place ≠ []
  found : f.at? place = some g
  isKind : g.isKind kind = true

mutual

/-- The places inside of the tree with a fragment of the kind, in post-order. -/
def places (kind : FragmentKind) : Fragment → List (List Nat)
  | leaf _ _ => []
  | body children _ => placesFrom kind 0 children

def placesFrom (kind : FragmentKind) : Nat → List Fragment → List (List Nat)
  | _, [] => []
  | i, f :: fs =>
    (f.places kind ++ if f.isKind kind then [[]] else []).map (i :: ·) ++ placesFrom kind (i + 1) fs

end

/-- The places in a fragment, its own one included. -/
def placesWithin (kind : FragmentKind) (f : Fragment) : List (List Nat) :=
  f.places kind ++ if f.isKind kind then [[]] else []

theorem placesFrom_cons (i : Nat) (f : Fragment) (fs : List Fragment) :
    placesFrom kind i (f :: fs) =
      (f.placesWithin kind).map (i :: ·) ++ placesFrom kind (i + 1) fs := by
  rw [placesFrom, placesWithin]

mutual

/-- Every fragment of the kind that is inside of the tree has its place among these. -/
theorem mem_places_iff : ∀ {f : Fragment} {place : List Nat},
    place ∈ f.places kind ↔ ∃ g, f.Holds kind place g
  | leaf action flow, place => by
    rw [places]
    constructor
    · exact nofun
    · rintro ⟨g, hinside, hfound, -⟩
      obtain ⟨i, path, rfl⟩ := List.exists_cons_of_ne_nil hinside
      cases hfound
  | body children flow, place => by
    rw [places, mem_placesFrom_iff]
    constructor
    · rintro ⟨i, path, c, g, rfl, hc, hg, hkind⟩
      refine ⟨g, by simp, ?_, hkind⟩
      rw [Nat.zero_add, at?_cons, Fragment.children, hc]
      exact hg
    · rintro ⟨g, hinside, hfound, hkind⟩
      obtain ⟨i, path, rfl⟩ := List.exists_cons_of_ne_nil hinside
      obtain ⟨c, hc, hg⟩ := Option.bind_eq_some_iff.mp hfound
      exact ⟨i, path, c, g, by rw [Nat.zero_add], hc, hg, hkind⟩

theorem mem_placesFrom_iff : ∀ {fs : List Fragment} {start : Nat} {place : List Nat},
    place ∈ placesFrom kind start fs ↔ ∃ i path c g, place = (start + i) :: path ∧
      fs[i]? = some c ∧ c.at? path = some g ∧ g.isKind kind = true
  | [], start, place => by simp [placesFrom]
  | f :: fs, start, place => by
    have hwithin : ∀ path, path ∈ f.placesWithin kind ↔
        ∃ g, f.at? path = some g ∧ g.isKind kind = true := by
      intro path
      rw [placesWithin, List.mem_append, mem_places_iff]
      cases path with
      | nil =>
        constructor
        · rintro (⟨g, hinside, -⟩ | h)
          · exact absurd rfl hinside
          · exact ⟨f, rfl, by simpa using h⟩
        · rintro ⟨g, hg, hkind⟩
          cases hg
          exact .inr (by simp [hkind])
      | cons i path =>
        constructor
        · rintro (⟨g, -, hfound, hkind⟩ | h)
          · exact ⟨g, hfound, hkind⟩
          · split at h <;> simp at h
        · rintro ⟨g, hfound, hkind⟩
          exact .inl ⟨g, by simp, hfound, hkind⟩
    rw [placesFrom_cons, List.mem_append, List.mem_map, mem_placesFrom_iff]
    constructor
    · rintro (⟨path, hpath, rfl⟩ | ⟨i, path, c, g, rfl, hc, hg⟩)
      · obtain ⟨g, hg⟩ := (hwithin path).mp hpath
        exact ⟨0, path, f, g, rfl, rfl, hg⟩
      · exact ⟨i + 1, path, c, g, by rw [Nat.add_right_comm, Nat.add_assoc], hc, hg⟩
    · rintro ⟨i, path, c, g, rfl, hc, hg⟩
      cases i with
      | zero =>
        cases hc
        exact .inl ⟨path, (hwithin path).mpr ⟨g, hg⟩, rfl⟩
      | succ i => exact .inr ⟨i, path, c, g, by rw [Nat.add_right_comm, Nat.add_assoc], hc, hg⟩

end

mutual

/-- No place comes twice, and none comes before one inside of it or left of it. -/
theorem pairwise_places : ∀ f : Fragment, (f.places kind).Pairwise Precedes
  | leaf action flow => by
    rw [places]
    exact .nil
  | body children flow => by
    rw [places]
    exact pairwise_placesFrom children 0

theorem pairwise_placesFrom : ∀ (fs : List Fragment) (start : Nat),
    (placesFrom kind start fs).Pairwise Precedes
  | [], start => by
    rw [placesFrom]
    exact .nil
  | f :: fs, start => by
    have hwithin : (f.placesWithin kind).Pairwise Precedes := by
      rw [placesWithin, List.pairwise_append]
      refine ⟨pairwise_places f, by split <;> simp, ?_⟩
      intro place hplace whole hwhole
      obtain ⟨g, hinside, -⟩ := mem_places_iff.mp hplace
      obtain ⟨i, path, rfl⟩ := List.exists_cons_of_ne_nil hinside
      have : whole = [] := by split at hwhole <;> simp_all
      rw [this]
      trivial
    rw [placesFrom_cons, List.pairwise_append, List.pairwise_map]
    refine ⟨hwithin.imp fun h => .inr ⟨rfl, h⟩, pairwise_placesFrom fs (start + 1), ?_⟩
    intro place hplace later hlater
    obtain ⟨path, -, rfl⟩ := List.mem_map.mp hplace
    obtain ⟨i, path', c, g, rfl, -⟩ := mem_placesFrom_iff.mp hlater
    exact .inl (by omega)

end

example (flow : Flow) :
    (body [leaf .yield flow, body [leaf .exit flow] flow] flow).places .any =
      [[0], [1, 0], [1]] := rfl

mutual

/-- There are as many places as the search finds fragments. -/
theorem length_places : ∀ f : Fragment, (f.places kind).length = (f.find kind).length
  | leaf action flow => rfl
  | body children flow => by
    rw [places, find, descendants]
    exact length_placesFrom children 0

theorem length_placesFrom : ∀ (fs : List Fragment) (start : Nat),
    (placesFrom kind start fs).length = ((withDescendants fs).filter (isKind kind)).length
  | [], start => by rw [placesFrom, withDescendants, List.filter_nil, List.length_nil,
      List.length_nil]
  | f :: fs, start => by
    have hf := length_places f
    have hfs := length_placesFrom fs (start + 1)
    rw [find] at hf
    rw [placesFrom_cons, placesWithin, withDescendants, List.filter_cons, List.filter_append,
      List.length_append, List.length_map, List.length_append, hf, hfs]
    split
    · simp
      omega
    · simp

end

/-! ## The walk -/

/-- The edit of all that is inside of a fragment and then of the fragment itself. -/
def editWithin (kind : FragmentKind) (edit : Edit σ ε) (state : σ) (f : Fragment) :
    Edited σ ε Fragment :=
  match editEach kind edit state f with
  | ⟨state', g, some e⟩ => ⟨state', g, some e⟩
  | ⟨state', g, none⟩ => editIfKind kind edit state' g

theorem editChildren_cons (state : σ) (f : Fragment) (fs : List Fragment) :
    editChildren kind edit state (f :: fs) =
      match editWithin kind edit state f with
      | ⟨state', g, some e⟩ => ⟨state', g :: fs, some e⟩
      | ⟨state', g, none⟩ =>
        let rest := editChildren kind edit state' fs
        ⟨rest.state, g :: rest.result, rest.error⟩ := by
  rw [editChildren, editWithin]
  obtain ⟨state', g, error⟩ := editEach kind edit state f
  cases error with
  | some e => rfl
  | none =>
    dsimp only
    obtain ⟨state'', g', error⟩ := editIfKind kind edit state' g
    cases error <;> rfl

/-- Whatever happens inside of a fragment, it stays of its kind. -/
theorem isKind_editEach (state : σ) (f : Fragment) :
    (editEach kind edit state f).result.isKind kind = f.isKind kind := by
  cases f with
  | leaf action flow => rw [editEach]
  | body children flow =>
    rw [editEach]
    rfl

/-- The call is for the fragment, and is given what editing all inside of it has made of it. -/
def Ripe (kind : FragmentKind) (edit : Edit σ ε) (g : Fragment) (c : Call σ) : Prop :=
  g.isKind kind = true ∧ ∃ state, editEach kind edit state g = ⟨c.state, c.given, none⟩

/-- The calls are made one after another at the first of the places, or at all of them if none
    fails, and each of them is for what was there in the tree. -/
structure Visits (kind : FragmentKind) (edit : Edit σ ε) (state : σ) (f : Fragment)
    (places : List (List Nat)) (calls : List (Call σ)) (edited : Edited σ ε Fragment) : Prop where
  performs : Performs edit state f calls edited
  inOrder : calls.map Call.place <+: places
  complete : edited.error = none → calls.map Call.place = places
  ripe : ∀ c ∈ calls, ∃ g, f.at? c.place = some g ∧ Ripe kind edit g c

/-- A walk inside of a fragment goes on with the fragment itself. -/
theorem Visits.exists_within {state : σ} {f : Fragment} {calls : List (Call σ)}
    (h : Visits kind edit state f (f.places kind) calls (editEach kind edit state f)) :
    ∃ calls', Visits kind edit state f (f.placesWithin kind) calls'
      (editWithin kind edit state f) := by
  obtain ⟨hperforms, hinOrder, hcomplete, hripe⟩ := h
  have hkind : (editEach kind edit state f).result.isKind kind = f.isKind kind :=
    isKind_editEach state f
  unfold editWithin placesWithin
  generalize he : editEach kind edit state f = inner at hperforms hcomplete hkind
  obtain ⟨state', g, error⟩ := inner
  cases error with
  | some e =>
    exact ⟨calls, hperforms, hinOrder.trans (List.prefix_append ..), nofun, hripe⟩
  | none =>
    have hplaces : calls.map Call.place = f.places kind := hcomplete rfl
    dsimp only at hkind ⊢
    unfold editIfKind
    rw [hkind]
    by_cases hf : f.isKind kind = true
    · have hlast : (calls ++ [Call.mk [] state' g]).map Call.place = f.places kind ++ [[]] := by
        rw [List.map_append, hplaces]
        rfl
      have hripe' : ∀ c ∈ calls ++ [Call.mk [] state' g], ∃ g, f.at? c.place = some g ∧
          Ripe kind edit g c := by
        intro c hc
        rcases List.mem_append.mp hc with hc | hc
        · exact hripe c hc
        · rw [List.mem_singleton.mp hc]
          exact ⟨f, rfl, hf, state, he⟩
      rw [if_pos hf, if_pos hf]
      refine ⟨calls ++ [⟨[], state', g⟩], hperforms.append ?_, ?_, fun _ => hlast, hripe'⟩
      · cases hedit : (edit state' g).error with
        | some e =>
          have hfailed : Performs edit state' g [⟨[], state', g⟩]
              ⟨(edit state' g).state, replaceAt (edit state' g).result [] g, some e⟩ :=
            .failed rfl hedit
          rw [replaceAt, ← hedit] at hfailed
          exact hfailed
        | none =>
          have hnext : Performs edit state' g [⟨[], state', g⟩]
              ⟨(edit state' g).state, replaceAt (edit state' g).result [] g, none⟩ :=
            .next rfl hedit (.done _ _)
          rw [replaceAt, ← hedit] at hnext
          exact hnext
      · rw [hlast]
    · rw [if_neg hf, if_neg hf, List.append_nil]
      exact ⟨calls, hperforms, hinOrder, hcomplete, hripe⟩

/-- The same for some parts of a body, of which those before have been visited. -/
structure VisitsFrom (kind : FragmentKind) (edit : Edit σ ε) (state : σ) (before fs : List Fragment)
    (flow : Flow) (calls : List (Call σ)) (edited : Edited σ ε (List Fragment)) : Prop where
  performs : Performs edit state (body (before ++ fs) flow) calls
    ⟨edited.state, body (before ++ edited.result) flow, edited.error⟩
  inOrder : calls.map Call.place <+: placesFrom kind before.length fs
  complete : edited.error = none → calls.map Call.place = placesFrom kind before.length fs
  ripe : ∀ c ∈ calls, ∃ i path part g, c.place = (before.length + i) :: path ∧
    fs[i]? = some part ∧ part.at? path = some g ∧ Ripe kind edit g c

theorem VisitsFrom.cons {state : σ} {before fs : List Fragment} {flow : Flow} {f : Fragment}
    {calls : List (Call σ)}
    (h : Visits kind edit state f (f.placesWithin kind) calls (editWithin kind edit state f))
    (hrest : ∀ state' g, ∃ calls', VisitsFrom kind edit state' (before ++ [g]) fs flow calls'
      (editChildren kind edit state' fs)) :
    ∃ calls', VisitsFrom kind edit state before (f :: fs) flow calls'
      (editChildren kind edit state (f :: fs)) := by
  obtain ⟨hperforms, hinOrder, hcomplete, hripe⟩ := h
  have hpart := hperforms.inPart before fs flow
  have hplaces : (calls.map (Call.inPart before.length)).map Call.place =
      (calls.map Call.place).map (before.length :: ·) := by
    simp [Call.inPart]
  have hripe' : ∀ c ∈ calls.map (Call.inPart before.length), ∃ i path part g,
      c.place = (before.length + i) :: path ∧ (f :: fs)[i]? = some part ∧
        part.at? path = some g ∧ Ripe kind edit g c := by
    intro c hc
    obtain ⟨d, hd, rfl⟩ := List.mem_map.mp hc
    obtain ⟨g, hg, hripe⟩ := hripe d hd
    exact ⟨0, d.place, f, g, rfl, rfl, hg, hripe⟩
  rw [editChildren_cons]
  -- A failure in the first part ends the walk, and otherwise the rest goes on from what it left.
  generalize editWithin kind edit state f = within at hpart hcomplete
  obtain ⟨state', g, error⟩ := within
  cases error with
  | some e =>
    refine ⟨_, hpart, ?_, nofun, hripe'⟩
    rw [hplaces, placesFrom_cons]
    exact (hinOrder.map _).trans (List.prefix_append ..)
  | none =>
    obtain ⟨calls', hperforms', hinOrder', hcomplete', hripe''⟩ := hrest state' g
    have hlength : (before ++ [g]).length = before.length + 1 := by simp
    have hall : calls.map Call.place = f.placesWithin kind := hcomplete rfl
    rw [hlength] at hinOrder' hcomplete' hripe''
    refine ⟨calls.map (Call.inPart before.length) ++ calls', ?_, ?_, ?_, ?_⟩
    · rw [List.append_assoc, List.append_assoc] at hperforms'
      exact hpart.append hperforms'
    · rw [List.map_append, hplaces, hall, placesFrom_cons, List.prefix_append_right_inj]
      exact hinOrder'
    · intro hnone
      rw [List.map_append, hplaces, hall, placesFrom_cons, hcomplete' hnone]
    · intro c hc
      rcases List.mem_append.mp hc with hc | hc
      · exact hripe' c hc
      · obtain ⟨i, path, part, g, hplace, hpart, hg⟩ := hripe'' c hc
        exact ⟨i + 1, path, part, g, by rw [hplace, Nat.add_right_comm, Nat.add_assoc], hpart, hg⟩

mutual

theorem exists_visits : ∀ (state : σ) (f : Fragment), ∃ calls,
    Visits kind edit state f (f.places kind) calls (editEach kind edit state f)
  | state, leaf action flow => by
    rw [editEach, places]
    exact ⟨[], .done _ _, List.nil_prefix, fun _ => rfl, nofun⟩
  | state, body children flow => by
    obtain ⟨calls, hperforms, hinOrder, hcomplete, hripe⟩ :=
      exists_visitsFrom state [] children flow
    rw [editEach, places]
    refine ⟨calls, hperforms, hinOrder, hcomplete, ?_⟩
    intro c hc
    obtain ⟨i, path, part, g, hplace, hpart, hg, hripe⟩ := hripe c hc
    refine ⟨g, ?_, hripe⟩
    rw [hplace, List.length_nil, Nat.zero_add, at?_cons, Fragment.children, hpart]
    exact hg

theorem exists_visitsFrom : ∀ (state : σ) (before fs : List Fragment) (flow : Flow), ∃ calls,
    VisitsFrom kind edit state before fs flow calls (editChildren kind edit state fs)
  | state, before, [], flow => by
    rw [editChildren]
    refine ⟨[], .done _ _, List.nil_prefix, fun _ => ?_, nofun⟩
    rw [placesFrom]
    rfl
  | state, before, f :: fs, flow => by
    obtain ⟨calls, hf⟩ := exists_visits state f
    obtain ⟨calls', hwithin⟩ := hf.exists_within
    exact VisitsFrom.cons hwithin fun state' g => exists_visitsFrom state' (before ++ [g]) fs flow

end

/-! ## Where a walk stops -/

/-- A walk through `f` is stopped by the call `last` and leaves the tree `left`.  The calls before
    that one have made the tree `reached`. -/
structure StopsAt (kind : FragmentKind) (edit : Edit σ ε) (state : σ) (f : Fragment)
    (earlier : List (Call σ)) (last : Call σ) (reached left : Fragment) (e : ε) : Prop where
  /-- What was edited before stays. -/
  performs : Performs edit state f earlier ⟨last.state, reached, none⟩
  given : reached.at? last.place = some last.given
  fails : (edit last.state last.given).error = some e
  left_eq : left = replaceAt (edit last.state last.given).result last.place reached
  /-- Of the fragments to visit, all up to the last one have been visited. -/
  visited : ∀ place g, f.Holds kind place g →
    (place ∈ (earlier ++ [last]).map Call.place ↔ ¬Precedes last.place place)
  /-- What comes later is as it was.  The bodies around the last fragment come later, and are as
      they were but for what is inside of them. -/
  untouched : ∀ place, Precedes last.place place → ¬place <+: last.place →
    left.at? place = f.at? place
  around : ∀ place, Precedes last.place place →
    (left.at? place).map shell = (f.at? place).map shell
  /-- An insertion that is refused has changed nothing. -/
  refused : ∀ inserted position options cause,
    last.given.insert inserted position options = .error cause →
    (edit last.state last.given).result =
      (insertion inserted position options last.state last.given).result →
    left = reached

theorem Visits.exists_stopsAt {state : σ} {f : Fragment} {calls : List (Call σ)}
    {edited : Edited σ ε Fragment} {e : ε}
    (h : Visits kind edit state f (f.places kind) calls edited) (he : edited.error = some e) :
    ∃ earlier last reached, calls = earlier ++ [last] ∧
      StopsAt kind edit state f earlier last reached edited.result e := by
  obtain ⟨earlier, last, reached, rfl, hearlier, hgiven, hfails, hleft⟩ := h.performs.exists_last he
  -- The places not visited are all after those that are, in the order of the walk.
  obtain ⟨later, hlater⟩ := h.inOrder
  have hpairwise : (f.places kind).Pairwise Precedes := pairwise_places f
  rw [← hlater, List.pairwise_append] at hpairwise
  obtain ⟨hcalls, -, hcross⟩ := hpairwise
  rw [List.map_append, List.pairwise_append] at hcalls
  have hbefore : ∀ c ∈ earlier, Precedes c.place last.place := by
    intro c hc
    exact hcalls.2.2 c.place (List.mem_map_of_mem hc) last.place (by simp)
  have hafter : ∀ place ∈ later, Precedes last.place place := by
    intro place hplace
    exact hcross last.place (by simp) place hplace
  have hnot : ∀ place, Precedes last.place place → ∀ c ∈ earlier ++ [last],
      ¬c.place <+: place := by
    intro place hplace c hc
    rcases List.mem_append.mp hc with hc | hc
    · exact ((hbefore c hc).trans hplace).not_isPrefix
    · rw [List.mem_singleton.mp hc]
      exact hplace.not_isPrefix
  refine ⟨earlier, last, reached, rfl, hearlier, hgiven, hfails, hleft, ?_, ?_, ?_, ?_⟩
  · intro place g hg
    have hmem : place ∈ f.places kind := mem_places_iff.mpr ⟨g, hg⟩
    rw [← hlater, List.mem_append] at hmem
    constructor
    · intro hplace
      obtain ⟨c, hc, rfl⟩ := List.mem_map.mp hplace
      rcases List.mem_append.mp hc with hc | hc
      · exact (hbefore c hc).asymm
      · rw [List.mem_singleton.mp hc]
        exact Precedes.irrefl _
    · intro hplace
      exact hmem.resolve_right fun hm => hplace (hafter place hm)
  · intro place hplace haround
    refine h.performs.at?_eq fun c hc => ⟨hnot place hplace c hc, ?_⟩
    rcases List.mem_append.mp hc with hc | hc
    · -- A fragment inside of a later one would itself come later.
      exact fun hinside => (hbefore c hc).asymm (hplace.of_isPrefix hinside haround)
    · rw [List.mem_singleton.mp hc]
      exact haround
  · intro place hplace
    exact h.performs.shell_at? (hnot place hplace)
  · intro inserted position options cause hrefused hresult
    unfold insertion at hresult
    rw [hrefused] at hresult
    rw [hleft, hresult]
    exact replaceAt_self hgiven

/-- A walk calls the edit on fragments that were inside of the tree when it began, in post-order and
    with all inside of them edited.  If no call fails, these are all fragments of the kind; if one
    fails, it is the last. -/
theorem editEach_visits (kind : FragmentKind) (edit : Edit σ ε) (state : σ) (f : Fragment) :
    ∃ calls : List (Call σ),
      Performs edit state f calls (editEach kind edit state f) ∧
      (calls.map Call.place).Pairwise Precedes ∧
      (∀ c ∈ calls, ∃ g before, f.Holds kind c.place g ∧
        editEach kind edit before g = ⟨c.state, c.given, none⟩) ∧
      ((editEach kind edit state f).error = none →
        (∀ place g, f.Holds kind place g → place ∈ calls.map Call.place) ∧
          calls.length = (f.find kind).length) ∧
      ∀ e, (editEach kind edit state f).error = some e →
        ∃ earlier last reached, calls = earlier ++ [last] ∧
          StopsAt kind edit state f earlier last reached (editEach kind edit state f).result e := by
  obtain ⟨calls, hvisits⟩ : ∃ calls, Visits kind edit state f (f.places kind) calls
      (editEach kind edit state f) := exists_visits state f
  refine ⟨calls, hvisits.performs, ?_, ?_, ?_, fun e he => hvisits.exists_stopsAt he⟩
  · exact (pairwise_places f).sublist hvisits.inOrder.sublist
  · intro c hc
    obtain ⟨g, hg, hkind, before, hbefore⟩ := hvisits.ripe c hc
    have hplace := hvisits.inOrder.subset (List.mem_map_of_mem hc)
    obtain ⟨g', hinside, -⟩ := mem_places_iff.mp hplace
    exact ⟨g, before, ⟨hinside, hg, hkind⟩, hbefore⟩
  · intro hnone
    have hall := hvisits.complete hnone
    constructor
    · intro place g hg
      rw [hall]
      exact mem_places_iff.mpr ⟨g, hg⟩
    · rw [← length_places, ← hall, List.length_map]

end Fragment
end JvmWeave
