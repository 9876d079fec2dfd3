/-!
# Cutting text at marks and joining the pieces again

`split` and `join` are inverse to each other on pieces that do not contain the mark; the two `strip`
functions take a known beginning or ending away.

All of them work on lists of characters and recurse on them, since they are part of what proofs are
about.  Names are cut at `.`, `/` and `$`, and a name says which of these it means only by its
context, so the mark is always an argument.

The empty text has one empty piece.  So there is always a first and a last piece, and an empty
segment of a name is a piece like any other.

Recursion into the pieces of a text needs to know that a piece is shorter.  It is if the text had a
mark in it, by `length_lt_of_mem_split`.
-/

set_option autoImplicit false

namespace JvmWeave.Text

def extendFirst (c : Char) : List (List Char) → List (List Char)
  | [] => [[c]]
  | piece :: pieces => (c :: piece) :: pieces

def split (mark : Char) : List Char → List (List Char)
  | [] => [[]]
  | c :: cs =>
    if c = mark then [] :: split mark cs else extendFirst c (split mark cs)

def join (mark : Char) : List (List Char) → List Char
  | [] => []
  | [piece] => piece
  | piece :: pieces => piece ++ mark :: join mark pieces

/-- The text with each `old` written as `new`. -/
def replace (old new : Char) (cs : List Char) : List Char :=
  cs.map fun c => if c = old then new else c

/-- What follows `beginning`, if the text starts with it. -/
def stripPrefix? : List Char → List Char → Option (List Char)
  | [], cs => some cs
  | _ :: _, [] => none
  | b :: bs, c :: cs => if b = c then stripPrefix? bs cs else none

/-- What stands before `ending`, if the text ends with it. -/
def stripSuffix? (ending cs : List Char) : Option (List Char) :=
  (stripPrefix? ending.reverse cs.reverse).map List.reverse

theorem extendFirst_ne_nil (c : Char) (pieces : List (List Char)) : extendFirst c pieces ≠ [] := by
  cases pieces <;> simp [extendFirst]

theorem split_ne_nil (mark : Char) (cs : List Char) : split mark cs ≠ [] := by
  cases cs with
  | nil => simp [split]
  | cons c cs =>
    rw [split]
    split
    · simp
    · exact extendFirst_ne_nil _ _

/-- Each piece after extending the first is one from before, or the first with one more
character. -/
theorem length_le_of_mem_extendFirst {c : Char} {pieces : List (List Char)} {n : Nat}
    (hp : ∀ p ∈ pieces, p.length ≤ n) {piece : List Char} (h : piece ∈ extendFirst c pieces) :
    piece.length ≤ n + 1 := by
  cases pieces with
  | nil => simp_all [extendFirst]
  | cons p ps =>
    rcases List.mem_cons.1 h with rfl | h
    · exact Nat.succ_le_succ (hp p List.mem_cons_self)
    · exact Nat.le_succ_of_le (hp piece (List.mem_cons_of_mem _ h))

@[simp] theorem join_split (mark : Char) (cs : List Char) : join mark (split mark cs) = cs := by
  induction cs with
  | nil => rfl
  | cons c cs ih =>
    rw [split]
    split
    · next h =>
      obtain ⟨p, ps, hp⟩ := List.exists_cons_of_ne_nil (split_ne_nil mark cs)
      rw [hp] at ih
      rw [hp, join, ih, h]
      · rfl
      · simp
    · obtain ⟨p, ps, hp⟩ := List.exists_cons_of_ne_nil (split_ne_nil mark cs)
      rw [hp] at ih ⊢
      cases ps with
      | nil => rw [extendFirst, join]; rw [join] at ih; rw [ih]
      | cons q qs => rw [extendFirst, join] <;> rw [join] at ih <;> simp_all

/-- Each piece is at most as long as the text. -/
theorem length_le_of_mem_split {mark : Char} {cs piece : List Char} (h : piece ∈ split mark cs) :
    piece.length ≤ cs.length := by
  induction cs generalizing piece with
  | nil => simp_all [split]
  | cons c cs ih =>
    rw [split] at h
    split at h
    · rcases List.mem_cons.1 h with rfl | h
      · simp
      · exact Nat.le_succ_of_le (ih h)
    · exact length_le_of_mem_extendFirst (fun p hp => ih hp) h

/-- If a mark is cut away, each piece is shorter than the text. -/
theorem length_lt_of_mem_split {mark : Char} {cs piece : List Char} (hm : mark ∈ cs)
    (h : piece ∈ split mark cs) : piece.length < cs.length := by
  induction cs generalizing piece with
  | nil => cases hm
  | cons c cs ih =>
    rw [split] at h
    split at h
    · rcases List.mem_cons.1 h with rfl | h
      · simp
      · exact Nat.lt_succ_of_le (length_le_of_mem_split h)
    · next hc =>
      have hm : mark ∈ cs := (List.mem_cons.1 hm).resolve_left fun e => hc e.symm
      have pos : 0 < cs.length := List.length_pos_of_mem hm
      have := length_le_of_mem_extendFirst (n := cs.length - 1)
        (fun p hp => Nat.le_sub_one_of_lt (ih hm hp)) h
      simp only [List.length_cons]
      omega

theorem stripPrefix?_eq_some_iff {beginning cs rest : List Char} :
    stripPrefix? beginning cs = some rest ↔ cs = beginning ++ rest := by
  induction beginning generalizing cs with
  | nil => simp [stripPrefix?]
  | cons b bs ih =>
    cases cs with
    | nil => simp [stripPrefix?]
    | cons c cs =>
      rw [stripPrefix?]
      split
      · next h => simp [ih, h]
      · next h => simp [Ne.symm h]

theorem stripSuffix?_eq_some_iff {ending cs rest : List Char} :
    stripSuffix? ending cs = some rest ↔ cs = rest ++ ending := by
  rw [stripSuffix?, Option.map_eq_some_iff]
  constructor
  · rintro ⟨a, ha, rfl⟩
    have := congrArg List.reverse (stripPrefix?_eq_some_iff.1 ha)
    simpa using this
  · rintro rfl
    exact ⟨rest.reverse, stripPrefix?_eq_some_iff.2 (by simp), by simp⟩

end JvmWeave.Text
