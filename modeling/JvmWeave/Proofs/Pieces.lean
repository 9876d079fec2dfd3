import Mathlib.Data.List.DropRight
import Mathlib.Data.List.TakeWhile
import JvmWeave.Text.Blank
import JvmWeave.Text.Cut

/-!
# Pieces of text

How `split`, `join` and `replace` act on pieces that do not contain the mark, and when `trim` has
nothing to remove.
-/

set_option autoImplicit false

namespace JvmWeave.Text

/-! ## Split and join -/

theorem join_cons {mark : Char} {piece : List Char} {pieces : List (List Char)}
    (h : pieces ≠ []) : join mark (piece :: pieces) = piece ++ mark :: join mark pieces := by
  cases pieces with
  | nil => exact absurd rfl h
  | cons q qs => rfl

theorem split_of_not_mem {mark : Char} {cs : List Char} (h : mark ∉ cs) :
    split mark cs = [cs] := by
  induction cs with
  | nil => rfl
  | cons c cs ih =>
    obtain ⟨hc, hcs⟩ := not_or.mp (mt List.mem_cons.mpr h)
    rw [split, if_neg (Ne.symm hc), ih hcs, extendFirst]

theorem split_append {mark : Char} {piece : List Char} (rest : List Char) (h : mark ∉ piece) :
    split mark (piece ++ mark :: rest) = piece :: split mark rest := by
  induction piece with
  | nil => rw [List.nil_append, split, if_pos rfl]
  | cons c cs ih =>
    obtain ⟨hc, hcs⟩ := not_or.mp (mt List.mem_cons.mpr h)
    rw [List.cons_append, split, if_neg (Ne.symm hc), ih hcs, extendFirst]

/-- A mark cuts a text in two whatever else is cut. -/
theorem split_append_mark (mark : Char) (before after : List Char) :
    split mark (before ++ mark :: after) = split mark before ++ split mark after := by
  induction before with
  | nil => simp [split]
  | cons c cs ih =>
    rw [List.cons_append, split, split, ih]
    split
    · rfl
    · obtain ⟨piece, pieces, he⟩ := List.exists_cons_of_ne_nil (split_ne_nil mark cs)
      rw [he]
      rfl

theorem mark_not_mem_of_mem_split {mark : Char} {cs piece : List Char}
    (h : piece ∈ split mark cs) : mark ∉ piece := by
  induction cs generalizing piece with
  | nil =>
    rw [List.mem_singleton.mp h]
    exact List.not_mem_nil
  | cons c cs ih =>
    rw [split] at h
    split at h
    · rcases List.mem_cons.mp h with rfl | h
      · exact List.not_mem_nil
      · exact ih h
    · next hc =>
      obtain ⟨first, pieces, he⟩ := List.exists_cons_of_ne_nil (split_ne_nil mark cs)
      rw [he] at h
      rcases List.mem_cons.mp h with rfl | h
      · intro hm
        rcases List.mem_cons.mp hm with hm | hm
        · exact hc hm.symm
        · exact ih (by simp [he]) hm
      · exact ih (by simp [he, h])

theorem split_join {mark : Char} {pieces : List (List Char)} (hne : pieces ≠ [])
    (h : ∀ p ∈ pieces, mark ∉ p) : split mark (join mark pieces) = pieces := by
  induction pieces with
  | nil => exact absurd rfl hne
  | cons p ps ih =>
    obtain ⟨hp, hps⟩ := List.forall_mem_cons.mp h
    by_cases hnil : ps = []
    · subst hnil
      exact split_of_not_mem hp
    · rw [join_cons hnil, split_append _ hp, ih hnil hps]

theorem eq_of_join_eq {mark : Char} {pieces pieces' : List (List Char)} (hne : pieces ≠ [])
    (hne' : pieces' ≠ []) (h : ∀ p ∈ pieces, mark ∉ p) (h' : ∀ p ∈ pieces', mark ∉ p)
    (he : join mark pieces = join mark pieces') : pieces = pieces' := by
  rw [← split_join hne h, he, split_join hne' h']

/-- A last piece that is itself joined adds its pieces. -/
theorem join_append_join {mark : Char} (before : List (List Char)) {pieces : List (List Char)}
    (h : pieces ≠ []) :
    join mark (before ++ [join mark pieces]) = join mark (before ++ pieces) := by
  induction before with
  | nil => rfl
  | cons p ps ih => rw [List.cons_append, List.cons_append, join_cons (by simp),
      join_cons (by simp [h]), ih]

theorem join_ne_nil {mark : Char} {pieces : List (List Char)} (hne : pieces ≠ [])
    (h : ∀ p ∈ pieces, p ≠ []) : join mark pieces ≠ [] := by
  cases pieces with
  | nil => exact absurd rfl hne
  | cons p ps =>
    have hp := h p List.mem_cons_self
    by_cases hnil : ps = []
    · subst hnil
      exact hp
    · rw [join_cons hnil]
      simp

theorem join_append_singleton {mark : Char} {before : List (List Char)} (last : List Char)
    (h : before ≠ []) : join mark (before ++ [last]) = join mark before ++ mark :: last := by
  induction before with
  | nil => exact absurd rfl h
  | cons p ps ih =>
    rw [List.cons_append, join_cons (by simp)]
    by_cases hnil : ps = []
    · subst hnil
      rfl
    · rw [ih hnil, join_cons hnil, List.append_assoc, List.cons_append]

theorem join_append {mark : Char} {before after : List (List Char)} (hb : before ≠ []) (ha : after ≠ []) :
    join mark (before ++ after) = join mark before ++ mark :: join mark after := by
  rw [← join_append_join before ha, join_append_singleton _ hb]

theorem join_append_last {mark : Char} (before : List (List Char)) (last more : List Char) :
    join mark (before ++ [last ++ more]) = join mark (before ++ [last]) ++ more := by
  by_cases hnil : before = []
  · subst hnil
    rfl
  · rw [join_append_singleton _ hnil, join_append_singleton _ hnil, List.append_assoc,
      List.cons_append]

/-- Behind a text without marks only the last piece grows. -/
theorem split_append_of_not_mem {mark : Char} (before : List Char) {more : List Char}
    (h : mark ∉ more) : split mark (before ++ more) =
      (split mark before).dropLast ++
        [(split mark before).getLast (split_ne_nil mark before) ++ more] := by
  have hparts := List.dropLast_append_getLast (split_ne_nil mark before)
  conv_lhs => rw [← join_split mark before, ← hparts, ← join_append_last]
  refine split_join (by simp) fun piece hm => ?_
  rcases List.mem_append.mp hm with hm | hm
  · exact mark_not_mem_of_mem_split (List.dropLast_subset _ hm)
  · rw [List.mem_singleton.mp hm, List.mem_append]
    exact not_or.mpr ⟨mark_not_mem_of_mem_split (List.getLast_mem _), h⟩

theorem mark_mem_join {mark : Char} {p : List Char} {pieces : List (List Char)}
    (h : pieces ≠ []) : mark ∈ join mark (p :: pieces) := by
  rw [join_cons h]
  exact List.mem_append_right _ List.mem_cons_self

theorem mem_join {mark c : Char} {pieces : List (List Char)} (h : c ∈ join mark pieces) :
    c = mark ∨ ∃ p ∈ pieces, c ∈ p := by
  induction pieces with
  | nil => cases h
  | cons p ps ih =>
    by_cases hnil : ps = []
    · subst hnil
      exact .inr ⟨p, List.mem_cons_self, h⟩
    · rw [join_cons hnil] at h
      rcases List.mem_append.mp h with h | h
      · exact .inr ⟨p, List.mem_cons_self, h⟩
      · rcases List.mem_cons.mp h with h | h
        · exact .inl h
        · exact (ih h).imp_right fun ⟨q, hq, hc⟩ => ⟨q, List.mem_cons_of_mem _ hq, hc⟩

theorem mem_join_of_mem {mark c : Char} {p : List Char} {pieces : List (List Char)}
    (h : p ∈ pieces) (hc : c ∈ p) : c ∈ join mark pieces := by
  induction pieces with
  | nil => cases h
  | cons q qs ih =>
    by_cases hnil : qs = []
    · subst hnil
      rw [List.mem_singleton.mp h] at hc
      exact hc
    · rw [join_cons hnil]
      rcases List.mem_cons.mp h with rfl | h
      · exact List.mem_append_left _ hc
      · exact List.mem_append_right _ (List.mem_cons_of_mem _ (ih h))

/-! ## Replace -/

theorem mem_replace {old new c : Char} {cs : List Char} (h : c ∈ replace old new cs) :
    c ∈ cs ∨ c = new := by
  obtain ⟨d, hd, rfl⟩ := List.mem_map.mp h
  by_cases he : d = old
  · exact .inr (if_pos he)
  · rw [if_neg he]
    exact .inl hd

theorem replace_of_not_mem {old new : Char} {cs : List Char} (h : old ∉ cs) :
    replace old new cs = cs := by
  have hc : ∀ c ∈ cs, (if c = old then new else c) = c := fun c hc =>
    if_neg fun he : c = old => h (he ▸ hc)
  exact (List.map_congr_left hc).trans (List.map_id' cs)

theorem replace_eq_self_iff {old new : Char} {cs : List Char} (h : old ≠ new) :
    replace old new cs = cs ↔ old ∉ cs := by
  refine ⟨fun he hm => ?_, replace_of_not_mem⟩
  rw [← he] at hm
  obtain ⟨c, -, hc⟩ := List.mem_map.mp hm
  split at hc
  · exact h hc.symm
  · next hne => exact hne hc

theorem replace_join (old new mark : Char) (pieces : List (List Char)) :
    replace old new (join mark pieces) =
      join (if mark = old then new else mark) (pieces.map (replace old new)) := by
  induction pieces with
  | nil => rfl
  | cons p ps ih =>
    by_cases hnil : ps = []
    · subst hnil
      rfl
    · rw [join_cons hnil, List.map_cons, join_cons (by simpa using hnil), ← ih]
      unfold replace
      rw [List.map_append, List.map_cons]

/-- Pieces without the character that is replaced stay, and only the marks between them change. -/
theorem replace_join_of_not_mem {old new mark : Char} {pieces : List (List Char)}
    (h : ∀ p ∈ pieces, old ∉ p) :
    replace old new (join mark pieces) = join (if mark = old then new else mark) pieces := by
  rw [replace_join]
  exact congrArg _ ((List.map_congr_left fun p hp => replace_of_not_mem (h p hp)).trans
    (List.map_id' pieces))

/-- With other marks between its pieces a text has its marks replaced. -/
theorem join_split_eq_replace (old new : Char) (cs : List Char) :
    join new (split old cs) = replace old new cs := by
  conv_rhs => rw [← join_split old cs]
  rw [replace_join_of_not_mem fun _ => mark_not_mem_of_mem_split, if_pos rfl]

/-! ## Ends of a text -/

theorem isSome_stripSuffix?_iff {ending cs : List Char} :
    (stripSuffix? ending cs).isSome = true ↔ ending <:+ cs := by
  rw [Option.isSome_iff_exists]
  exact exists_congr fun _ => stripSuffix?_eq_some_iff.trans eq_comm

theorem stripSuffix?_eq_none {ending cs : List Char} {c : Char} (hc : c ∈ ending) (h : c ∉ cs) :
    stripSuffix? ending cs = none := by
  rw [Option.eq_none_iff_forall_ne_some]
  intro rest hr
  rw [stripSuffix?_eq_some_iff.mp hr] at h
  exact h (List.mem_append_right _ hc)

/-- Pieces that are not empty do not start with the mark. -/
theorem stripPrefix?_join_eq_none {mark : Char} {pieces : List (List Char)} (hne : pieces ≠ [])
    (h : ∀ p ∈ pieces, p ≠ [] ∧ mark ∉ p) : stripPrefix? [mark] (join mark pieces) = none := by
  rw [Option.eq_none_iff_forall_ne_some]
  intro rest hr
  have hs := split_join hne fun p hp => (h p hp).2
  rw [stripPrefix?_eq_some_iff.mp hr, List.singleton_append, split, if_pos rfl] at hs
  exact (h [] (hs ▸ List.mem_cons_self)).1 rfl

/-! ## Blanks -/

theorem trimStart_append_cons {c : Char} (xs ys : List Char) (h : isBlank c = false) :
    trimStart (xs ++ c :: ys) = trimStart xs ++ c :: ys := by
  induction xs with
  | nil => exact List.dropWhile_cons_of_neg (by simp [h])
  | cons x xs ih =>
    unfold trimStart at ih ⊢
    rw [List.cons_append, List.dropWhile_cons, List.dropWhile_cons]
    split
    · exact ih
    · rfl

theorem trimEnd_append_cons {c : Char} (xs ys : List Char) (h : isBlank c = false) :
    trimEnd (xs ++ c :: ys) = xs ++ c :: trimEnd ys := by
  have hs := trimStart_append_cons ys.reverse xs.reverse h
  unfold trimStart at hs
  unfold trimEnd
  rw [List.reverse_append, List.reverse_cons, List.append_assoc, List.singleton_append, hs,
    List.reverse_append, List.reverse_cons, List.reverse_reverse, List.append_assoc,
    List.singleton_append]

theorem trimStart_of_blank {cs : List Char} (h : ∀ c ∈ cs, isBlank c = true) : trimStart cs = [] :=
  List.dropWhile_eq_nil_iff.mpr h

theorem trimEnd_of_blank {cs : List Char} (h : ∀ c ∈ cs, isBlank c = true) : trimEnd cs = [] := by
  have hs : cs.reverse.dropWhile isBlank = [] :=
    List.dropWhile_eq_nil_iff.mpr fun c hc => h c (List.mem_reverse.mp hc)
  unfold trimEnd
  rw [hs, List.reverse_nil]

theorem trim_of_blank {cs : List Char} (h : ∀ c ∈ cs, isBlank c = true) : trim cs = [] := by
  unfold trim
  rw [trimStart_of_blank h]
  rfl

/-- What stands before an ending is shorter, and trimming does not make it longer. -/
theorem length_trimEnd_lt {ending cs rest : List Char} (hne : ending ≠ [])
    (h : stripSuffix? ending cs = some rest) : (trimEnd rest).length < cs.length := by
  rw [stripSuffix?_eq_some_iff.mp h, List.length_append]
  have hle := length_trimEnd_le rest
  have hpos := List.length_pos_iff.mpr hne
  omega

theorem trimEnd_trimEnd (cs : List Char) : trimEnd (trimEnd cs) = trimEnd cs := by
  unfold trimEnd
  rw [List.reverse_reverse, List.dropWhile_idempotent]

theorem trim_trimEnd (cs : List Char) : trim (trimEnd cs) = trim cs := by
  by_cases h : ∀ c ∈ cs, isBlank c = true
  · rw [trimEnd_of_blank h, trim_of_blank h]
    rfl
  · obtain ⟨c, hc⟩ := not_forall.mp h
    obtain ⟨hm, hb⟩ := Classical.not_imp.mp hc
    obtain ⟨before, after, rfl⟩ := List.append_of_mem hm
    rw [Bool.not_eq_true] at hb
    unfold trim
    rw [trimEnd_append_cons _ _ hb, trimStart_append_cons _ _ hb, trimStart_append_cons _ _ hb,
      trimEnd_append_cons _ _ hb, trimEnd_append_cons _ _ hb, trimEnd_trimEnd]

theorem trimEnd_append {cs : List Char} (before : List Char) (h : ∃ c ∈ cs, isBlank c = false) :
    trimEnd (before ++ cs) = before ++ trimEnd cs := by
  obtain ⟨c, hm, hb⟩ := h
  obtain ⟨xs, ys, rfl⟩ := List.append_of_mem hm
  rw [← List.append_assoc, trimEnd_append_cons _ _ hb, trimEnd_append_cons _ _ hb,
    List.append_assoc]

theorem mem_of_mem_trimEnd {c : Char} {cs : List Char} (h : c ∈ trimEnd cs) : c ∈ cs :=
  List.mem_reverse.mp ((List.dropWhile_sublist _).subset (List.mem_reverse.mp h))

theorem mem_of_mem_trim {c : Char} {cs : List Char} (h : c ∈ trim cs) : c ∈ cs :=
  (List.dropWhile_sublist _).subset (mem_of_mem_trimEnd h)

theorem forall_mem_of_all {p : Char → Prop} [DecidablePred p] {cs : List Char}
    (h : (cs.all fun c => p c) = true) : ∀ c ∈ cs, p c := fun c hc =>
  of_decide_eq_true (List.all_eq_true.mp h c hc)

theorem notBlank_of_all {cs : List Char} (h : (cs.all fun c => !isBlank c) = true) :
    ∀ c ∈ cs, isBlank c = false := fun c hc => by
  simpa using List.all_eq_true.mp h c hc

theorem trim_of_not_blank {cs : List Char} (h : ∀ c ∈ cs, isBlank c = false) : trim cs = cs := by
  have hd : ∀ ds : List Char, (∀ c ∈ ds, isBlank c = false) → ds.dropWhile isBlank = ds := by
    intro ds hds
    cases ds with
    | nil => rfl
    | cons d ds => exact List.dropWhile_cons_of_neg (by simp [hds d List.mem_cons_self])
  unfold trim trimEnd trimStart
  rw [hd cs h, hd cs.reverse (fun c hc => h c (List.mem_reverse.mp hc)), List.reverse_reverse]

end JvmWeave.Text
