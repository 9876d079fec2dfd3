import JvmWeave.JavaType.Argument
import JvmWeave.Scope.TypeExpr

/-!
# Matching angle brackets

Four functions walk over text and count the angle brackets that are open.  Inside of brackets none
of them looks at anything but brackets, so that text in which they match is passed as a whole.  That
is proved here once for each function, by induction on the way the brackets match.

`Balanced` is a grammar and not a count: text is a character or a group in brackets, and text behind
it.  An induction over it has the inside of a group as a part, with the group in one piece.  Over a
count the inside would be text that is not balanced, and each of the lemmas would have to say what
happens there.

`Unmarked` text is what the names of classes are made of: it has no brackets at all, and nothing in
it that erasure or the end of a class would look at.
-/

set_option autoImplicit false

namespace JvmWeave

open Text

/-- Text in which every bracket matches another one. -/
inductive Balanced : List Char → Prop
  | nil : Balanced []
  | char {c : Char} {cs : List Char} (ho : c ≠ '<') (hc : c ≠ '>') (h : Balanced cs) :
      Balanced (c :: cs)
  | group {inside cs : List Char} (hi : Balanced inside) (h : Balanced cs) :
      Balanced ('<' :: (inside ++ '>' :: cs))

namespace Balanced

theorem of_not_mem {cs : List Char} (ho : '<' ∉ cs) (hc : '>' ∉ cs) : Balanced cs := by
  induction cs with
  | nil => exact .nil
  | cons c cs ih =>
    obtain ⟨ho, hos⟩ := not_or.mp (mt List.mem_cons.mpr ho)
    obtain ⟨hc, hcs⟩ := not_or.mp (mt List.mem_cons.mpr hc)
    exact .char (Ne.symm ho) (Ne.symm hc) (ih hos hcs)

theorem append {xs ys : List Char} (hx : Balanced xs) (hy : Balanced ys) :
    Balanced (xs ++ ys) := by
  induction hx with
  | nil => exact hy
  | char ho hc _ ih => exact .char ho hc ih
  | group hi _ _ ih =>
    rw [List.cons_append, List.append_assoc, List.cons_append]
    exact .group hi ih

/-- Text in brackets. -/
theorem enclosed {xs : List Char} (hx : Balanced xs) : Balanced ('<' :: (xs ++ ['>'])) :=
  .group hx .nil

theorem flatMap {α : Type} {as : List α} {f : α → List Char} (h : ∀ a ∈ as, Balanced (f a)) :
    Balanced (as.flatMap f) := by
  induction as with
  | nil => exact .nil
  | cons a as ih =>
    obtain ⟨ha, has⟩ := List.forall_mem_cons.mp h
    exact ha.append (ih has)

/-! ## Mismatches -/

theorem firstMismatch?_append {xs rest : List Char} {depth : Nat} (hx : Balanced xs)
    (hr : firstMismatch? depth rest = none) : firstMismatch? depth (xs ++ rest) = none := by
  induction hx generalizing depth rest with
  | nil => exact hr
  | char ho hc _ ih =>
    rw [List.cons_append, firstMismatch?, if_neg fun h => hc h.1]
    simp only [if_neg ho, if_neg hc, ih hr, Option.map_none]
  | group _ _ ihi ih =>
    -- What follows the inner text is the closing bracket, one level deeper.
    rw [List.cons_append, List.append_assoc, firstMismatch?, if_neg (by simp)]
    dsimp only
    rw [if_pos rfl, ihi, Option.map_none]
    rw [List.cons_append, firstMismatch?, if_neg (by simp)]
    dsimp only
    rw [if_neg (by decide), if_pos rfl, Nat.add_sub_cancel, ih hr, Option.map_none]

theorem firstMismatch?_eq_none {xs : List Char} (hx : Balanced xs) :
    firstMismatch? 0 xs = none := by
  rw [← List.append_nil xs]
  exact hx.firstMismatch?_append rfl

/-! ## Commas -/

/-- The pieces with text in front of the first. -/
def prepend (xs : List Char) : List (List Char) → List (List Char)
  | [] => [xs]
  | piece :: pieces => (xs ++ piece) :: pieces

theorem extendFirst_eq_prepend (c : Char) (ps : List (List Char)) :
    extendFirst c ps = prepend [c] ps := by
  cases ps <;> rfl

theorem prepend_prepend (xs ys : List Char) (ps : List (List Char)) :
    prepend xs (prepend ys ps) = prepend (xs ++ ys) ps := by
  cases ps with
  | nil => rfl
  | cons p ps => rw [prepend, prepend, prepend, List.append_assoc]

theorem prepend_nil {ps : List (List Char)} (h : ps ≠ []) : prepend [] ps = ps := by
  cases ps with
  | nil => exact absurd rfl h
  | cons p ps => rfl

theorem prepend_append {xs : List Char} {ps : List (List Char)} (qs : List (List Char))
    (h : ps ≠ []) : prepend xs (ps ++ qs) = prepend xs ps ++ qs := by
  cases ps with
  | nil => exact absurd rfl h
  | cons p ps => rfl

theorem splitCommas_ne_nil (depth : Nat) (cs : List Char) : splitCommas depth cs ≠ [] := by
  cases cs with
  | nil => simp [splitCommas]
  | cons c cs =>
    rw [splitCommas]
    split
    · simp
    · exact extendFirst_ne_nil _ _

/-- What is cut at commas is joined by them. -/
theorem join_splitCommas (depth : Nat) (cs : List Char) : join ',' (splitCommas depth cs) = cs := by
  induction cs generalizing depth with
  | nil => rfl
  | cons c cs ih =>
    have hext : ∀ {ps : List (List Char)}, ps ≠ [] → join ',' ps = cs →
        join ',' (extendFirst c ps) = c :: cs := by
      intro ps hne hj
      obtain ⟨p, ps, rfl⟩ := List.exists_cons_of_ne_nil hne
      subst hj
      cases ps <;> rfl
    rw [splitCommas]
    split
    · next hc =>
      obtain ⟨p, ps, hp⟩ := List.exists_cons_of_ne_nil (splitCommas_ne_nil 0 cs)
      have hj := ih 0
      rw [hp] at hj ⊢
      rw [hc.1, ← hj]
      rfl
    · exact hext (splitCommas_ne_nil _ _) (ih _)

/-- Commas in brackets cut nothing. -/
theorem splitCommas_succ_append {xs : List Char} (hx : Balanced xs) (depth : Nat)
    (rest : List Char) :
    splitCommas (depth + 1) (xs ++ rest) = prepend xs (splitCommas (depth + 1) rest) := by
  induction hx generalizing depth rest with
  | nil => exact (prepend_nil (splitCommas_ne_nil _ _)).symm
  | char ho hc _ ih =>
    rw [List.cons_append, splitCommas, if_neg (by simp)]
    dsimp only
    rw [if_neg ho, if_neg hc, ih, extendFirst_eq_prepend, prepend_prepend, List.singleton_append]
  | group _ _ ihi ih =>
    rw [List.cons_append, List.append_assoc, splitCommas, if_neg (by simp)]
    dsimp only
    rw [if_pos rfl, ihi, List.cons_append, splitCommas, if_neg (by simp)]
    dsimp only
    rw [if_neg (by decide), if_pos rfl, Nat.add_sub_cancel, ih]
    simp only [extendFirst_eq_prepend, prepend_prepend, List.singleton_append]

/-- Where brackets match, a comma behind them is outside of brackets. -/
theorem splitCommas_append_comma {xs : List Char} (hx : Balanced xs) (rest : List Char) :
    splitCommas 0 (xs ++ ',' :: rest) = splitCommas 0 xs ++ splitCommas 0 rest := by
  induction hx with
  | nil =>
    show splitCommas 0 (',' :: rest) = [] :: splitCommas 0 rest
    rw [splitCommas, if_pos ⟨rfl, rfl⟩]
  | char ho hc _ ih =>
    rw [List.cons_append, splitCommas, splitCommas]
    dsimp only
    rw [if_neg ho, if_neg hc, ih]
    split
    · rfl
    · rw [extendFirst_eq_prepend, extendFirst_eq_prepend, prepend_append _ (splitCommas_ne_nil _ _)]
  | @group inside cs hi _ _ ih =>
    have hgroup : ∀ ys, splitCommas 0 ('<' :: (inside ++ '>' :: ys)) =
        prepend ('<' :: (inside ++ ['>'])) (splitCommas 0 ys) := by
      intro ys
      rw [splitCommas, if_neg (by simp)]
      dsimp only
      rw [if_pos rfl, hi.splitCommas_succ_append, splitCommas, if_neg (by simp)]
      dsimp only
      rw [if_neg (by decide), if_pos rfl, extendFirst_eq_prepend, extendFirst_eq_prepend,
        prepend_prepend, prepend_prepend]
      rfl
    rw [List.cons_append, List.append_assoc, List.cons_append, hgroup, hgroup, ih,
      prepend_append _ (splitCommas_ne_nil _ _)]

/-- The arguments of a list that is written with blanks behind the commas. -/
theorem splitArguments_intercalate {names : List (List Char)} (hne : names ≠ [])
    (h : ∀ name ∈ names, Balanced name) :
    splitArguments ([',', ' '].intercalate names) = names.flatMap splitArguments := by
  have hblank : ∀ cs, splitArguments (' ' :: cs) = splitArguments cs := by
    intro cs
    unfold splitArguments
    rw [splitCommas, if_neg (by simp)]
    dsimp only
    rw [if_neg (by decide), if_neg (by decide)]
    obtain ⟨piece, pieces, hp⟩ := List.exists_cons_of_ne_nil (splitCommas_ne_nil 0 cs)
    rw [hp]
    rfl
  induction names with
  | nil => exact absurd rfl hne
  | cons name names ih =>
    obtain ⟨hname, hnames⟩ := List.forall_mem_cons.mp h
    cases names with
    | nil => simp
    | cons next names =>
      have hcomma : ∀ cs, splitArguments (name ++ ',' :: cs) =
          splitArguments name ++ splitArguments cs := by
        intro cs
        unfold splitArguments
        rw [hname.splitCommas_append_comma, List.map_append]
      rw [List.intercalate_cons_cons, List.append_assoc, List.flatMap_cons, ← ih (by simp) hnames]
      exact (hcomma _).trans (congrArg _ (hblank _))

theorem intercalate {names : List (List Char)} (h : ∀ name ∈ names, Balanced name) :
    Balanced ([',', ' '].intercalate names) := by
  induction names with
  | nil => exact .nil
  | cons name names ih =>
    obtain ⟨hname, hnames⟩ := List.forall_mem_cons.mp h
    cases names with
    | nil => simpa using hname
    | cons next names =>
      rw [List.intercalate_cons_cons]
      have hcomma : Balanced [',', ' '] := .of_not_mem (by decide) (by decide)
      exact (hname.append hcomma).append (ih hnames)

/-! ## Erasure and groups -/

theorem eraseClass_append {xs rest : List Char} {depth : Nat} (hx : Balanced xs) :
    eraseClass (depth + 1) (xs ++ rest) = eraseClass (depth + 1) rest := by
  induction hx generalizing depth rest with
  | nil => rfl
  | char ho hc _ ih => rw [List.cons_append, eraseClass, if_neg ho, if_neg hc, if_neg (by simp), ih]
  | group _ _ ihi ih =>
    rw [List.cons_append, List.append_assoc, eraseClass, if_pos rfl, ihi, List.cons_append,
      eraseClass, if_neg (by decide), if_pos rfl, Nat.add_sub_cancel, ih]

theorem angleGroupsFrom_append {xs outer inside rest : List Char} {depth : Nat}
    (hx : Balanced xs) :
    angleGroupsFrom (depth + 1) outer inside (xs ++ rest) =
      angleGroupsFrom (depth + 1) outer (inside ++ xs) rest := by
  induction hx generalizing depth inside rest with
  | nil => rw [List.nil_append, List.append_nil]
  | @char c cs ho hc _ ih =>
    rw [List.cons_append, angleGroupsFrom, if_neg (by simp), if_neg ho, if_neg hc, ih,
      List.append_assoc]
    rfl
  | group _ _ ihi ih =>
    rw [List.cons_append, List.append_assoc, angleGroupsFrom, if_neg (by simp), if_pos rfl, ihi,
      List.cons_append, angleGroupsFrom, if_neg (by simp), if_neg (by decide), if_pos rfl,
      if_neg (by simp), Nat.add_sub_cancel, ih]
    simp only [List.append_assoc, List.cons_append, List.nil_append]

end Balanced

/-! ## Text without brackets -/

/-- No bracket, and nothing that ends a class or a part of its name. -/
def Unmarked (cs : List Char) : Prop :=
  ∀ c ∈ cs, c ≠ '<' ∧ c ≠ '>' ∧ c ≠ ';' ∧ c ≠ '.'

namespace Unmarked

theorem balanced {cs : List Char} (h : Unmarked cs) : Balanced cs :=
  .of_not_mem (fun hm => (h _ hm).1 rfl) fun hm => (h _ hm).2.1 rfl

theorem eraseClass_append {cs rest : List Char} (h : Unmarked cs) :
    eraseClass 0 (cs ++ rest) = cs ++ eraseClass 0 rest := by
  induction cs with
  | nil => rfl
  | cons c cs ih =>
    obtain ⟨⟨ho, hc, -, hd⟩, hcs⟩ := List.forall_mem_cons.mp h
    rw [List.cons_append, eraseClass, if_neg ho, if_neg hc, if_pos rfl, if_neg hd, ih hcs]
    rfl

end Unmarked
end JvmWeave
