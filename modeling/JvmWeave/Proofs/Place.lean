import JvmWeave.Fragment.Basic

/-!
# Places in a tree

A fragment inside of a tree is told from others by its place, the path of indices that leads to it.
Equal fragments may stand at several places, so whatever is said about visits to fragments, or about
what an edit leaves alone, is said about places.

What is put at one place is not seen from places apart from it.  From the places around it, it is
seen as a part only: the fragments there keep their shells.
-/

set_option autoImplicit false

namespace JvmWeave

namespace Fragment

/-- The fragment at a path, which gives the index of a part for each body on the way. -/
def at? (f : Fragment) : List Nat → Option Fragment
  | [] => some f
  | i :: path => f.children[i]?.bind fun c => c.at? path

theorem at?_cons (f : Fragment) (i : Nat) (path : List Nat) :
    f.at? (i :: path) = f.children[i]?.bind fun c => c.at? path := rfl

/-- The tree with another fragment at a place. -/
def replaceAt (new : Fragment) : List Nat → Fragment → Fragment
  | [], _ => new
  | _ :: _, leaf action flow => leaf action flow
  | i :: path, body children flow => body (children.modify i (replaceAt new path)) flow

/-- A fragment apart from what is inside of it. -/
structure Shell where
  action? : Option Action
  flow : Flow
  /-- The number of parts. -/
  size : Nat

/-- The fragment without what is inside of it. -/
def shell (f : Fragment) : Shell :=
  ⟨f.action?, f.flow, f.children.length⟩

theorem children_replaceAt_cons (new : Fragment) (i : Nat) (path : List Nat) (f : Fragment) :
    (replaceAt new (i :: path) f).children = f.children.modify i (replaceAt new path) := by
  cases f with
  | leaf action flow => simp [replaceAt, children]
  | body children flow => rfl

theorem shell_replaceAt_cons (new : Fragment) (i : Nat) (path : List Nat) (f : Fragment) :
    (replaceAt new (i :: path) f).shell = f.shell := by
  cases f with
  | leaf action flow => rfl
  | body children flow => simp [replaceAt, shell, action?, Fragment.flow, Fragment.children]

/-- What is put at the place where it is changes nothing. -/
theorem replaceAt_self {f g : Fragment} {path : List Nat} (h : f.at? path = some g) :
    replaceAt g path f = f := by
  induction path generalizing f with
  | nil => exact (Option.some.inj h).symm
  | cons i path ih =>
    rw [at?_cons] at h
    obtain ⟨c, hc, hg⟩ := Option.bind_eq_some_iff.mp h
    cases f with
    | leaf action flow => rfl
    | body children flow =>
      rw [replaceAt]
      congr 1
      refine List.ext_getElem? fun j => ?_
      rw [List.getElem?_modify]
      by_cases hj : i = j
      · subst hj
        replace hc : children[i]? = some c := hc
        simp [hc, ih hg]
      · simp [hj]

/-- Other places are those before, behind, or inside of other parts. -/
theorem at?_replaceAt_of_apart {new : Fragment} {path place : List Nat} (h : ¬path <+: place)
    (h' : ¬place <+: path) (f : Fragment) : (replaceAt new path f).at? place = f.at? place := by
  induction path generalizing place f with
  | nil => exact absurd List.nil_prefix h
  | cons i path ih =>
    cases place with
    | nil => exact absurd List.nil_prefix h'
    | cons j place =>
      rw [at?_cons, at?_cons, children_replaceAt_cons, List.getElem?_modify]
      by_cases hj : i = j
      · subst hj
        rw [List.prefix_cons_inj] at h h'
        cases f.children[i]? with
        | none => rfl
        | some c => simpa using ih h h' c
      · simp [hj]

/-- All fragments that are not inside of the new one keep their shells. -/
theorem shell_at?_replaceAt {new : Fragment} {path place : List Nat} (h : ¬path <+: place)
    (f : Fragment) : ((replaceAt new path f).at? place).map shell = (f.at? place).map shell := by
  induction path generalizing place f with
  | nil => exact absurd List.nil_prefix h
  | cons i path ih =>
    cases place with
    | nil => exact congrArg some (shell_replaceAt_cons new i path f)
    | cons j place =>
      rw [at?_cons, at?_cons, children_replaceAt_cons, List.getElem?_modify]
      by_cases hj : i = j
      · subst hj
        rw [List.prefix_cons_inj] at h
        cases f.children[i]? with
        | none => rfl
        | some c => simpa using ih h c
      · simp [hj]

/-! ## One part of a body -/

variable (before after : List Fragment) (flow : Flow)

theorem at?_part (f : Fragment) (path : List Nat) :
    (body (before ++ f :: after) flow).at? (before.length :: path) = f.at? path := by
  simp [at?_cons, children]

theorem replaceAt_part (new f : Fragment) (path : List Nat) :
    replaceAt new (before.length :: path) (body (before ++ f :: after) flow) =
      body (before ++ replaceAt new path f :: after) flow := by
  simp [replaceAt, List.modify_eq_take_drop]

end Fragment

/-! ## Post-order -/

/-- Whether a place comes before another one in post-order: parts come before the body that they are
    in, and so does all that is in an earlier part of a body. -/
def Precedes : List Nat → List Nat → Prop
  | [], _ => False
  | _ :: _, [] => True
  | i :: path, j :: path' => i < j ∨ i = j ∧ Precedes path path'

namespace Precedes

theorem irrefl (p : List Nat) : ¬Precedes p p := by
  induction p with
  | nil => exact id
  | cons i p ih => simp [Precedes, ih]

theorem trans {p q r : List Nat} (hpq : Precedes p q) (hqr : Precedes q r) : Precedes p r := by
  induction p generalizing q r with
  | nil => exact hpq.elim
  | cons i p ih =>
    cases q with
    | nil => exact hqr.elim
    | cons j q =>
      cases r with
      | nil => trivial
      | cons k r =>
        rcases hpq with hij | ⟨rfl, hpq⟩
        · rcases hqr with hjk | ⟨rfl, -⟩
          · exact .inl (Nat.lt_trans hij hjk)
          · exact .inl hij
        · rcases hqr with hjk | ⟨rfl, hqr⟩
          · exact .inl hjk
          · exact .inr ⟨rfl, ih hpq hqr⟩

theorem asymm {p q : List Nat} (h : Precedes p q) : ¬Precedes q p := fun h' =>
  irrefl p (h.trans h')

/-- Nothing inside of a fragment comes after it. -/
theorem not_isPrefix {p q : List Nat} (h : Precedes p q) : ¬p <+: q := by
  induction p generalizing q with
  | nil => exact h.elim
  | cons i p ih =>
    cases q with
    | nil => simp
    | cons j q =>
      rw [List.cons_prefix_cons]
      rintro ⟨rfl, hp⟩
      rcases h with h | ⟨-, h⟩
      · exact Nat.lt_irrefl i h
      · exact ih h hp

/-- What is inside of a later fragment comes later, unless it is inside of a fragment around. -/
theorem of_isPrefix {p q r : List Nat} (h : Precedes p q) (hr : q <+: r) (hq : ¬q <+: p) :
    Precedes p r := by
  induction p generalizing q r with
  | nil => exact h.elim
  | cons i p ih =>
    cases q with
    | nil => exact absurd List.nil_prefix hq
    | cons j q =>
      obtain ⟨rest, rfl⟩ := hr
      rcases h with h | ⟨rfl, h⟩
      · exact .inl h
      · rw [List.prefix_cons_inj] at hq
        exact .inr ⟨rfl, ih h (List.prefix_append q rest) hq⟩

end Precedes
end JvmWeave
