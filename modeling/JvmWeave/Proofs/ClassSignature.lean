import JvmWeave.Proofs.TokenGrammar

/-!
# Class signatures

What stands between the `L` and the semicolon of a class is text in which brackets match and no
semicolon is outside of them.  Its last group in brackets holds the type arguments, and erasure goes
over it piece by piece.

The scanner knows such text by counting (`Closes`), everything else needs it by matching
(`ClassBody`).  That the two come to the same is the one argument here that is no induction on the
text: text inside of `depth` open brackets is cut behind each bracket that closes one, and every
piece is balanced by itself.  Counting starts at depth zero, where there is one piece.

With matching, the last group can be split off (`exists_last`), and the two functions that go over a
class have an equation for each piece.
-/

set_option autoImplicit false

namespace JvmWeave

open Text

/-- Groups in brackets, and between them neither brackets nor semicolons. -/
inductive ClassBody : List Char → Prop
  | nil : ClassBody []
  | char {c : Char} {cs : List Char} (ho : c ≠ '<') (hc : c ≠ '>') (hs : c ≠ ';')
    (h : ClassBody cs) : ClassBody (c :: cs)
  | group {inside cs : List Char} (hi : Balanced inside) (h : ClassBody cs) :
    ClassBody ('<' :: (inside ++ '>' :: cs))

namespace ClassBody

theorem balanced {cs : List Char} (h : ClassBody cs) : Balanced cs := by
  induction h with
  | nil => exact .nil
  | char ho hc _ _ ih => exact .char ho hc ih
  | group hi _ ih => exact .group hi ih

theorem append {xs ys : List Char} (hx : ClassBody xs) (hy : ClassBody ys) :
    ClassBody (xs ++ ys) := by
  induction hx with
  | nil => exact hy
  | char ho hc hs _ ih => exact .char ho hc hs ih
  | group hi _ ih =>
    rw [List.cons_append, List.append_assoc, List.cons_append]
    exact .group hi ih

/-- The text in front of the last group, if there is a group. -/
theorem exists_last {cs : List Char} (h : ClassBody cs) :
    ('<' ∉ cs ∧ '>' ∉ cs) ∨ ∃ before inside after, cs = before ++ '<' :: (inside ++ '>' :: after) ∧
      ClassBody before ∧ Balanced inside ∧ '<' ∉ after ∧ '>' ∉ after := by
  induction h with
  | nil => simp
  | @char c cs ho hc hs _ ih =>
    rcases ih with ⟨hopen, hclose⟩ | ⟨before, inside, after, rfl, hb, hrest⟩
    · left
      simp [hopen, hclose, ho.symm, hc.symm]
    · exact .inr ⟨c :: before, inside, after, rfl, .char ho hc hs hb, hrest⟩
  | @group inside cs hi _ ih =>
    right
    rcases ih with ⟨hopen, hclose⟩ | ⟨before, last, after, rfl, hb, hrest⟩
    · exact ⟨[], inside, cs, rfl, .nil, hi, hopen, hclose⟩
    · exact ⟨'<' :: (inside ++ '>' :: before), last, after, by simp, .group hi hb, hrest⟩

end ClassBody

theorem Unmarked.classBody {cs : List Char} (h : Unmarked cs) : ClassBody cs := by
  induction cs with
  | nil => exact .nil
  | cons c cs ih =>
    obtain ⟨⟨ho, hc, hs, -⟩, hcs⟩ := List.forall_mem_cons.mp h
    exact .char ho hc hs (ih hcs)

/-! ## Counting brackets -/

theorem Balanced.closes_append {xs rest : List Char} {depth : Nat} (hx : Balanced xs) :
    Closes (depth + 1) (xs ++ rest) ↔ Closes (depth + 1) rest := by
  induction hx generalizing depth rest with
  | nil => rfl
  | char ho hc _ ih =>
    rw [List.cons_append, closes_cons_iff, depthAfter, if_neg ho, if_neg hc, ih]
    simp
  | group _ _ ihi ih =>
    rw [List.cons_append, List.append_assoc, closes_cons_iff, depthAfter, if_pos rfl, ihi,
      List.cons_append, closes_cons_iff, depthAfter, if_neg (by decide), if_pos rfl,
      Nat.add_sub_cancel, ih]
    simp

theorem ClassBody.closes {cs : List Char} (h : ClassBody cs) : Closes 0 cs := by
  induction h with
  | nil => exact closes_nil_iff.mpr rfl
  | char ho hc hs _ ih =>
    rw [closes_cons_iff, depthAfter, if_neg ho, if_neg hc]
    exact ⟨fun he => (he.elim hc hs).elim, ih⟩
  | group hi _ ih =>
    rw [closes_cons_iff, depthAfter, if_pos rfl, hi.closes_append, closes_cons_iff, depthAfter,
      if_neg (by decide), if_pos rfl]
    exact ⟨by simp, by simp, ih⟩

/-- Text inside of `depth` open brackets, cut behind the bracket that closes each of them. -/
def ClosedPieces : Nat → List Char → Prop
  | 0, text => ClassBody text
  | depth + 1, text => ∃ inside rest, text = inside ++ '>' :: rest ∧ Balanced inside ∧
    ClosedPieces depth rest

theorem Closes.pieces {depth : Nat} {text : List Char} (h : Closes depth text) :
    ClosedPieces depth text := by
  induction text generalizing depth with
  | nil =>
    rw [closes_nil_iff.mp h]
    exact .nil
  | cons c cs ih =>
    obtain ⟨hc, hcs⟩ := closes_cons_iff.mp h
    have hpieces := ih hcs
    unfold depthAfter at hpieces
    split at hpieces
    · next ho =>
      subst ho
      obtain ⟨inside, rest, rfl, hi, hr⟩ := hpieces
      cases depth with
      | zero => exact .group hi hr
      | succ depth =>
        -- The new group goes to the text in front of the next bracket that closes.
        obtain ⟨next, after, rfl, hn, ha⟩ := hr
        exact ⟨'<' :: (inside ++ '>' :: next), after, by simp, .group hi hn, ha⟩
    · next ho =>
      split at hpieces
      · next he =>
        subst he
        obtain ⟨outer, hd⟩ := Nat.exists_eq_succ_of_ne_zero (Nat.ne_of_gt (hc (.inl rfl)))
        subst hd
        exact ⟨[], cs, rfl, .nil, hpieces⟩
      · next he =>
        cases depth with
        | zero => exact .char ho he (fun hs => absurd (hc (.inr hs)) (by simp)) hpieces
        | succ depth =>
          obtain ⟨inside, rest, rfl, hi, hr⟩ := hpieces
          exact ⟨c :: inside, rest, rfl, .char ho he hi, hr⟩

/-- Counting brackets and matching them come to the same. -/
theorem closes_zero_iff {body : List Char} : Closes 0 body ↔ ClassBody body :=
  ⟨Closes.pieces, ClassBody.closes⟩

/-! ## Erasure and groups -/

theorem Balanced.eraseClass_append_zero {xs : List Char} (hx : Balanced xs) (rest : List Char) :
    eraseClass 0 (xs ++ rest) = eraseClass 0 xs ++ eraseClass 0 rest := by
  induction hx with
  | nil => rfl
  | char ho hc _ ih =>
    rw [List.cons_append, eraseClass, eraseClass, if_neg ho, if_neg hc, if_neg ho, if_neg hc,
      if_pos rfl, if_pos rfl, ih]
    rfl
  | @group inside cs hi _ _ ih =>
    have hgroup (ys : List Char) :
        eraseClass 0 ('<' :: (inside ++ '>' :: ys)) = eraseClass 0 ys := by
      rw [eraseClass, if_pos rfl, hi.eraseClass_append, eraseClass, if_neg (by decide), if_pos rfl]
    rw [List.cons_append, List.append_assoc, List.cons_append, hgroup, hgroup, ih]

theorem eraseClass_of_not_mem {cs : List Char} (ho : '<' ∉ cs) (hc : '>' ∉ cs) :
    eraseClass 0 cs = replace '.' '$' cs := by
  induction cs with
  | nil => rfl
  | cons c cs ih =>
    obtain ⟨ho, hos⟩ := not_or.mp (mt List.mem_cons.mpr ho)
    obtain ⟨hc, hcs⟩ := not_or.mp (mt List.mem_cons.mpr hc)
    rw [eraseClass, if_neg (Ne.symm ho), if_neg (Ne.symm hc), if_pos rfl, ih hos hcs]
    rfl

theorem angleGroupsFrom_of_not_mem {cs : List Char} (ho : '<' ∉ cs) (hc : '>' ∉ cs)
    (outer : List Char) : angleGroupsFrom 0 outer [] cs = some ([], outer ++ cs) := by
  induction cs generalizing outer with
  | nil => simp [angleGroupsFrom]
  | cons c cs ih =>
    obtain ⟨ho, hos⟩ := not_or.mp (mt List.mem_cons.mpr ho)
    obtain ⟨hc, hcs⟩ := not_or.mp (mt List.mem_cons.mpr hc)
    rw [angleGroupsFrom, if_pos rfl, if_neg (Ne.symm ho), if_neg (Ne.symm hc), ih hos hcs]
    simp

/-- Text in which brackets match is cut into groups and what follows the last of them. -/
theorem Balanced.exists_angleGroups {xs : List Char} (hx : Balanced xs) (outer rest : List Char) :
    ∃ groups last, (groups.flatMap fun g => g.1 ++ '<' :: g.2 ++ ['>']) ++ last = outer ++ xs ∧
      angleGroupsFrom 0 outer [] (xs ++ rest) =
        (angleGroupsFrom 0 last [] rest).map fun r => (groups ++ r.1, r.2) := by
  induction hx generalizing outer with
  | nil => exact ⟨[], outer, by simp, by simp⟩
  | @char c cs ho hc _ ih =>
    obtain ⟨groups, last, hl, hg⟩ := ih (outer ++ [c])
    refine ⟨groups, last, by simpa using hl, ?_⟩
    rw [List.cons_append, angleGroupsFrom, if_pos rfl, if_neg ho, if_neg hc, hg]
  | @group inside cs hi _ _ ih =>
    obtain ⟨groups, last, hl, hg⟩ := ih []
    refine ⟨(outer, inside) :: groups, last, ?_, ?_⟩
    · rw [List.flatMap_cons, List.append_assoc, hl]
      simp
    · rw [List.cons_append, List.append_assoc, angleGroupsFrom, if_pos rfl, if_pos rfl,
        hi.angleGroupsFrom_append, List.cons_append, angleGroupsFrom, if_neg (by simp),
        if_neg (by decide), if_pos rfl, if_pos rfl, hg, Option.map_map]
      rfl

theorem lastGroup?_append {before inside after : List Char} (hb : Balanced before)
    (hi : Balanced inside) (ho : '<' ∉ after) (hc : '>' ∉ after) :
    lastGroup? (before ++ '<' :: (inside ++ '>' :: after)) = some ⟨before, inside, after⟩ := by
  obtain ⟨groups, last, hl, hg⟩ := hb.exists_angleGroups [] ('<' :: (inside ++ '>' :: after))
  have hlast : angleGroupsFrom 0 last [] ('<' :: (inside ++ '>' :: after)) =
      some ([(last, inside)], after) := by
    rw [angleGroupsFrom, if_pos rfl, if_pos rfl, hi.angleGroupsFrom_append, angleGroupsFrom,
      if_neg (by simp), if_neg (by decide), if_pos rfl, if_pos rfl,
      angleGroupsFrom_of_not_mem ho hc]
    rfl
  unfold lastGroup? angleGroups
  rw [hg, hlast]
  simpa using hl

theorem lastGroup?_of_not_mem {cs : List Char} (ho : '<' ∉ cs) (hc : '>' ∉ cs) :
    lastGroup? cs = none := by
  unfold lastGroup? angleGroups
  rw [angleGroupsFrom_of_not_mem ho hc]
  rfl

end JvmWeave
