import JvmWeave.Method.Signature
import JvmWeave.Proofs.ClassSignature

/-!
# Outside of brackets

Two functions cut text at marks that stand outside of all angle brackets.  Text whose brackets are
closed and that has the mark inside of them only is passed as a whole by both.

`Uncut` is defined as the functions go, with the count of open brackets, and so are the lemmas about
cuts.  Where brackets match, it only asks that the mark is not outside of them.  For the marks of
method types this is read off the erasure, which keeps what is outside and changes nothing but dots
in it (`Balanced.uncut`).
-/

set_option autoImplicit false

namespace JvmWeave

open Text

/-- Text inside of `depth` open brackets that closes them all and has the mark inside only. -/
def Uncut (mark : Char) (depth : Nat) : List Char → Prop
  | [] => depth = 0
  | c :: cs => ¬(c = mark ∧ depth = 0) ∧ Uncut mark (depthAfter depth c) cs

instance decidableUncut (mark : Char) : (depth : Nat) → DecidablePred (Uncut mark depth)
  | depth, [] => inferInstanceAs (Decidable (depth = 0))
  | depth, c :: cs =>
    have := decidableUncut mark (depthAfter depth c) cs
    inferInstanceAs (Decidable (¬(c = mark ∧ depth = 0) ∧ Uncut mark (depthAfter depth c) cs))

namespace Uncut

variable {mark : Char} {depth : Nat} {xs ys : List Char}

theorem append (hx : Uncut mark depth xs) (hy : Uncut mark 0 ys) :
    Uncut mark depth (xs ++ ys) := by
  induction xs generalizing depth with
  | nil => rwa [show depth = 0 from hx]
  | cons c cs ih => exact ⟨hx.1, ih hx.2⟩

theorem flatMap {α : Type} {as : List α} {f : α → List Char} (h : ∀ a ∈ as, Uncut mark 0 (f a)) :
    Uncut mark 0 (as.flatMap f) := by
  induction as with
  | nil => rfl
  | cons a as ih =>
    obtain ⟨ha, has⟩ := List.forall_mem_cons.mp h
    exact ha.append (ih has)

end Uncut

/-! ## Text with matching brackets -/

theorem Balanced.uncut_append {mark : Char} {depth : Nat} {xs rest : List Char}
    (hx : Balanced xs) (hr : Uncut mark (depth + 1) rest) :
    Uncut mark (depth + 1) (xs ++ rest) := by
  induction hx generalizing depth rest with
  | nil => exact hr
  | char ho hc _ ih =>
    refine ⟨by simp, ?_⟩
    rw [depthAfter, if_neg ho, if_neg hc]
    exact ih hr
  | group _ _ ihi ih =>
    rw [List.cons_append, List.append_assoc]
    refine ⟨by simp, ihi ⟨by simp, ?_⟩⟩
    exact ih hr

theorem Balanced.uncut_of_not_mem {mark : Char} {xs : List Char} (hx : Balanced xs)
    (h : mark ∉ xs) : Uncut mark 0 xs := by
  induction hx with
  | nil => rfl
  | char ho hc _ ih =>
    obtain ⟨hne, hcs⟩ := not_or.mp (mt List.mem_cons.mpr h)
    refine ⟨fun he => hne he.1.symm, ?_⟩
    rw [depthAfter, if_neg ho, if_neg hc]
    exact ih hcs
  | group hi _ _ ih =>
    simp only [List.mem_cons, List.mem_append, not_or] at h
    exact ⟨fun he => h.1 he.1.symm, hi.uncut_append ⟨by simp, ih h.2.2.2⟩⟩

/-- What erasure keeps is what stands outside of brackets. -/
theorem Balanced.uncut {mark : Char} {xs : List Char} (hx : Balanced xs)
    (hm : mark = ')' ∨ mark = '^') (he : mark ∉ eraseClass 0 xs) : Uncut mark 0 xs := by
  have hangle : '<' ≠ mark := by rcases hm with rfl | rfl <;> decide
  have hdot : '.' ≠ mark := by rcases hm with rfl | rfl <;> decide
  induction hx with
  | nil => rfl
  | @char c cs ho hc _ ih =>
    rw [eraseClass, if_neg ho, if_neg hc, if_pos rfl] at he
    obtain ⟨hne, hcs⟩ := not_or.mp (mt List.mem_cons.mpr he)
    refine ⟨fun h => hne ?_, ?_⟩
    · have hd : c ≠ '.' := fun hd => hdot (hd.symm.trans h.1)
      rw [if_neg hd, h.1]
    · rw [depthAfter, if_neg ho, if_neg hc]
      exact ih hcs
  | group hi _ _ ih =>
    rw [eraseClass, if_pos rfl, hi.eraseClass_append, eraseClass, if_neg (by decide),
      if_pos rfl] at he
    refine ⟨fun h => hangle h.1, hi.uncut_append ⟨by simp, ?_⟩⟩
    exact ih he

theorem Balanced.uncut_enclosed {mark : Char} {xs : List Char} (hx : Balanced xs)
    (hm : mark ≠ '<') : Uncut mark 0 ('<' :: (xs ++ ['>'])) :=
  ⟨fun h => hm h.1.symm, hx.uncut_append ⟨by simp, rfl⟩⟩

/-! ## Cuts -/

theorem cutTopLevel_cons (mark c : Char) (depth : Nat) (cs : List Char) :
    cutTopLevel mark depth (c :: cs) =
      if c = mark ∧ depth = 0 then some ([], cs)
      else (cutTopLevel mark (depthAfter depth c) cs).map fun r => (c :: r.1, r.2) :=
  rfl

theorem cutTopLevel_eq_some_iff {mark : Char} {depth : Nat} {text before after : List Char} :
    cutTopLevel mark depth text = some (before, after) ↔
      text = before ++ mark :: after ∧ Uncut mark depth before := by
  induction text generalizing depth before with
  | nil => simp [cutTopLevel]
  | cons c cs ih =>
    rw [cutTopLevel_cons]
    constructor
    · intro h
      split at h
      · next hc =>
        cases h
        exact ⟨by rw [hc.1]; rfl, hc.2⟩
      · next hc =>
        obtain ⟨⟨inner, rest⟩, hr, he⟩ := Option.map_eq_some_iff.mp h
        cases he
        obtain ⟨rfl, hu⟩ := ih.mp hr
        exact ⟨rfl, hc, hu⟩
    · rintro ⟨he, hu⟩
      cases before with
      | nil =>
        cases he
        rw [if_pos ⟨rfl, hu⟩]
      | cons d before =>
        cases he
        rw [if_neg hu.1, ih.mpr ⟨rfl, hu.2⟩]
        rfl

theorem cutTopLevel_of_not_mem {mark : Char} {text : List Char} (h : mark ∉ text) (depth : Nat) :
    cutTopLevel mark depth text = none := by
  rw [Option.eq_none_iff_forall_ne_some]
  rintro ⟨before, after⟩ hcut
  exact h (by rw [(cutTopLevel_eq_some_iff.mp hcut).1]; simp)

namespace Uncut

variable {mark : Char} {depth : Nat} {xs ys : List Char}

theorem cutTopLevel_append (h : Uncut mark depth xs) (ys : List Char) :
    cutTopLevel mark depth (xs ++ ys) =
      (cutTopLevel mark 0 ys).map fun r => (xs ++ r.1, r.2) := by
  induction xs generalizing depth with
  | nil =>
    rw [show depth = 0 from h]
    simp
  | cons c cs ih =>
    rw [List.cons_append, cutTopLevel_cons, if_neg h.1, ih h.2, Option.map_map]
    rfl

theorem cutTopLevel_eq_none (h : Uncut mark depth xs) : cutTopLevel mark depth xs = none := by
  have := h.cutTopLevel_append []
  rwa [List.append_nil] at this

/-- Brackets are closed behind such text, whatever mark is looked for. -/
theorem cutTopLevel_append_eq_none_iff {other : Char} (h : Uncut mark depth xs) :
    cutTopLevel other depth (xs ++ ys) = none ↔
      cutTopLevel other depth xs = none ∧ cutTopLevel other 0 ys = none := by
  induction xs generalizing depth with
  | nil =>
    rw [show depth = 0 from h]
    simp [cutTopLevel]
  | cons c cs ih =>
    rw [List.cons_append, cutTopLevel_cons, cutTopLevel_cons]
    split
    · simp
    · rw [Option.map_eq_none_iff, Option.map_eq_none_iff, ih h.2]

/-- All commas of such text are in brackets. -/
theorem splitCommas_append (h : Uncut ',' depth xs) (ys : List Char) :
    splitCommas depth (xs ++ ys) = Balanced.prepend xs (splitCommas 0 ys) := by
  induction xs generalizing depth with
  | nil =>
    rw [show depth = 0 from h]
    exact (Balanced.prepend_nil (Balanced.splitCommas_ne_nil 0 ys)).symm
  | cons c cs ih =>
    rw [List.cons_append, splitCommas, if_neg h.1]
    show extendFirst c (splitCommas (depthAfter depth c) (cs ++ ys)) = _
    rw [ih h.2, Balanced.extendFirst_eq_prepend, Balanced.prepend_prepend]
    rfl

end Uncut
end JvmWeave
