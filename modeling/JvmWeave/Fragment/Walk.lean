import JvmWeave.Fragment.Basic

/-!
# Walks over the fragments inside of a fragment

`descendants` lists them in source order, a body before its parts.  `editEach` changes them in
place, the parts of a body before the body itself, so that what an edit puts in is not visited.
Neither of them reaches the fragment that the walk starts from.

An edit may fail, and may keep a state from one fragment to the next.  Both are in the result
`Edited`.  It is a record and not a choice between a result and an error: when an edit fails, the
walk stops and everything that was changed up to there stays changed, so there is a result in any
case.
-/

set_option autoImplicit false

namespace JvmWeave.Fragment

mutual

/-- All fragments inside of the fragment, a body before its parts. -/
def descendants : Fragment → List Fragment
  | leaf _ _ => []
  | body children _ => withDescendants children

def withDescendants : List Fragment → List Fragment
  | [] => []
  | f :: fs => f :: (f.descendants ++ withDescendants fs)

end

/-- The fragments of a kind inside of the fragment. -/
def find (kind : FragmentKind) (f : Fragment) : List Fragment :=
  f.descendants.filter (isKind kind)

/-- What an edit leaves: a state, what is now in place of what was edited, and the error if it
failed. -/
structure Edited (σ ε α : Type) where
  state : σ
  result : α
  error : Option ε

/-- A change of one fragment, with a state that is handed on from one fragment to the next. -/
abbrev Edit (σ ε : Type) := σ → Fragment → Edited σ ε Fragment

variable {σ ε : Type}

def editIfKind (kind : FragmentKind) (edit : Edit σ ε) : Edit σ ε :=
  fun state f => if f.isKind kind then edit state f else ⟨state, f, none⟩

mutual

/-- Edits the fragments of a kind inside of the fragment, those inside of a body before the body.
The first error stops the walk, and all that was changed before stays changed. -/
def editEach (kind : FragmentKind) (edit : Edit σ ε) : Edit σ ε
  | state, leaf action flow => ⟨state, leaf action flow, none⟩
  | state, body children flow =>
    let edited := editChildren kind edit state children
    ⟨edited.state, body edited.result flow, edited.error⟩

def editChildren (kind : FragmentKind) (edit : Edit σ ε) :
    σ → List Fragment → Edited σ ε (List Fragment)
  | state, [] => ⟨state, [], none⟩
  | state, f :: fs =>
    let inner := editEach kind edit state f
    match inner.error with
    | some e => ⟨inner.state, inner.result :: fs, some e⟩
    | none =>
      let outer := editIfKind kind edit inner.state inner.result
      match outer.error with
      | some e => ⟨outer.state, outer.result :: fs, some e⟩
      | none =>
        let rest := editChildren kind edit outer.state fs
        ⟨rest.state, outer.result :: rest.result, rest.error⟩

end

end JvmWeave.Fragment
