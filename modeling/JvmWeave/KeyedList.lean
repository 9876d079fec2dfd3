/-!
# Ordered lists of pairs

The maps of this library: a list of pairs in ascending order of their keys, with each key at most
once.  Search paths and the members of annotations are kept in it.

A function would do for looking things up, and would not do for the rest: maps are listed, counted
and compared, always in the order of their keys.  With the order in the data two maps with the same
content are the same list, so that equality of annotations is equality and not a relation.  The
order is that of the code points of the keys.

`insert` keeps the order and replaces what stood under the key.  Everything about a map that was
filled by a sequence of calls follows from two lemmas: `get?_insert`, that a key has the value that
was written under it last and all others are left alone, and `ordered_insert`.
-/

set_option autoImplicit false

namespace JvmWeave.KeyedList

variable {α : Type}

def get? : List (String × α) → String → Option α
  | [], _ => none
  | (k, a) :: rest, key => if k = key then some a else get? rest key

/-- The list with the value under the key, and all else as it was. -/
def insert (key : String) (value : α) : List (String × α) → List (String × α)
  | [] => [(key, value)]
  | (k, a) :: rest =>
    if key < k then (key, value) :: (k, a) :: rest
    else if k = key then (key, value) :: rest
    else (k, a) :: insert key value rest

/-- Whether each key is less than all keys after it. -/
def Ordered (list : List (String × α)) : Prop :=
  list.Pairwise fun a b => a.1 < b.1

theorem isSome_get?_iff {key : String} {list : List (String × α)} :
    (get? list key).isSome = true ↔ key ∈ list.map Prod.fst := by
  induction list with
  | nil => simp [get?]
  | cons p rest ih =>
    rw [get?, List.map_cons, List.mem_cons]
    split
    · next h => simp [h]
    · next h => rw [ih, or_iff_right (Ne.symm h)]

theorem get?_insert (key other : String) (value : α) (list : List (String × α)) :
    get? (insert key value list) other = if key = other then some value else get? list other := by
  induction list with
  | nil => rfl
  | cons p rest ih =>
    obtain ⟨k, a⟩ := p
    rw [insert]
    split
    · rfl
    · split
      · next h =>
        rw [get?, get?, h]
        split <;> rfl
      · next h =>
        rw [get?, get?, ih]
        by_cases hk : k = other
        · have : key ≠ other := fun e => h (hk.trans e.symm)
          simp [hk, this]
        · simp [hk]

theorem mem_insert {key : String} {value : α} {list : List (String × α)} {p : String × α}
    (h : p ∈ insert key value list) : p = (key, value) ∨ p ∈ list := by
  induction list with
  | nil => exact .inl (List.mem_singleton.1 h)
  | cons q rest ih =>
    obtain ⟨k, a⟩ := q
    rw [insert] at h
    split at h
    · simpa using h
    · split at h
      · exact (List.mem_cons.1 h).imp id (List.mem_cons_of_mem _)
      · rcases List.mem_cons.1 h with h | h
        · exact .inr (h ▸ List.mem_cons_self)
        · exact (ih h).imp id (List.mem_cons_of_mem _)

theorem ordered_insert (key : String) (value : α) {list : List (String × α)} (h : Ordered list) :
    Ordered (insert key value list) := by
  induction list with
  | nil => exact List.pairwise_singleton _ _
  | cons p rest ih =>
    obtain ⟨k, a⟩ := p
    obtain ⟨hk, hr⟩ := List.pairwise_cons.1 h
    rw [insert]
    split
    · next lt =>
      refine List.pairwise_cons.2 ⟨fun q hq => ?_, h⟩
      rcases List.mem_cons.1 hq with rfl | hq
      · exact lt
      · exact String.lt_trans lt (hk q hq)
    · next nlt =>
      split
      · next eq => exact List.pairwise_cons.2 ⟨fun q hq => eq ▸ hk q hq, hr⟩
      · next ne =>
        refine List.pairwise_cons.2 ⟨fun q hq => ?_, ih hr⟩
        rcases mem_insert hq with rfl | hq
        · exact Std.lt_of_le_of_ne (String.not_lt.1 nlt) ne
        · exact hk q hq

end JvmWeave.KeyedList
