import JvmWeave.Proofs.ClassSignature
import JvmWeave.Proofs.PlainName

/-!
# Descriptors of the types that expressions mean

Whatever an expression means has the descriptor of a primitive type, of a class, or of an array of
these.  Type variables and type arguments add none, as the former have the descriptor of their bound
and the latter keep that of the class.

This is more than that the descriptor is a token.  The name in it is one that was checked, so it has
neither brackets nor semicolons, and none of the readers can be led astray by it.  It may have a
`|`, which `category` takes for the mark of a union.  Even then what stands before that mark is no
descriptor of its own (`scan_ne_ok`).
-/

set_option autoImplicit false

namespace JvmWeave

open Text

/-! ## Names of classes -/

namespace BinaryName

theorem not_mem_text (n : BinaryName) {c : Char} (hc : isReserved c = true) :
    c ∉ n.text.toList := by
  intro hm
  have hflaw := n.noFlaw
  unfold flaw? at hflaw
  split at hflaw
  · cases hflaw
  · rw [← join_split '/' n.text.toList] at hm
    rcases mem_join hm with rfl | ⟨part, hp, hm⟩
    · cases hc
    · have hpart := List.findSome?_eq_none_iff.mp hflaw part hp
      unfold segmentFlaw? at hpart
      split at hpart
      · cases hpart
      · rw [if_pos (List.any_eq_true.mpr ⟨c, hm, hc⟩)] at hpart
        cases hpart

theorem unmarked_text (n : BinaryName) : Unmarked n.text.toList := by
  intro c hm
  refine ⟨?_, ?_, ?_, ?_⟩ <;>
  · rintro rfl
    exact n.not_mem_text rfl hm

theorem toList_descriptor (n : BinaryName) :
    n.descriptor.toList = 'L' :: (n.text.toList ++ [';']) := by
  unfold descriptor
  simp

theorem eq_of_toList {m n : BinaryName} (h : m.text.toList = n.text.toList) : m = n := by
  obtain ⟨m, hm⟩ := m
  obtain ⟨n, hn⟩ := n
  congr 1
  exact String.toList_injective h

end BinaryName

/-! ## Shapes of descriptors -/

/-- The descriptor of a type without generics. -/
inductive IsDescriptor : List Char → Prop
  | primitive (p : Primitive) : IsDescriptor [p.letter]
  | classType (n : BinaryName) : IsDescriptor ('L' :: (n.text.toList ++ [';']))
  | array {cs : List Char} (h : IsDescriptor cs) : IsDescriptor ('[' :: cs)

namespace IsDescriptor

/-- It starts with a character that is kept wherever blanks are removed. -/
theorem exists_cons {cs : List Char} (h : IsDescriptor cs) :
    ∃ c rest, cs = c :: rest ∧ isBlank c = false ∧ c ≠ 'T' ∧ c ≠ '|' := by
  cases h with
  | primitive p =>
    refine ⟨p.letter, [], rfl, ?_⟩
    cases p <;> decide
  | classType n => exact ⟨'L', _, rfl, by decide⟩
  | array => exact ⟨'[', _, rfl, by decide⟩

theorem not_mem {cs : List Char} (h : IsDescriptor cs) {c : Char} (hc : c = '<' ∨ c = '>') :
    c ∉ cs := by
  induction h with
  | primitive p => rcases hc with rfl | rfl <;> cases p <;> decide
  | classType n =>
    intro hm
    rcases List.mem_cons.mp hm with rfl | hm
    · rcases hc with hc | hc <;> cases hc
    · rcases List.mem_append.mp hm with hm | hm
      · exact n.not_mem_text (by rcases hc with rfl | rfl <;> rfl) hm
      · rcases hc with rfl | rfl <;> cases List.mem_singleton.mp hm
  | array _ ih =>
    intro hm
    rcases List.mem_cons.mp hm with rfl | hm
    · rcases hc with hc | hc <;> cases hc
    · exact ih hm

/-- A descriptor is a single token. -/
theorem isToken {cs : List Char} (h : IsDescriptor cs) : IsToken .descriptor cs := by
  induction h with
  | primitive p => exact .primitive p
  | classType n =>
    exact .classType ⟨n.not_mem_text rfl, n.not_mem_text rfl, n.not_mem_text rfl⟩
  | array _ ih => exact .array ih

theorem scan {cs : List Char} (h : IsDescriptor cs) : Token.scan .descriptor cs = .ok (cs, []) :=
  Token.scan_eq_ok_iff.mpr ⟨h.isToken, by simp⟩

/-- What stands before a mark is no descriptor of its own. -/
theorem scan_ne_ok {cs before after : List Char} (h : IsDescriptor cs)
    (he : cs = before ++ '|' :: after) (result : List Char × List Char) :
    Token.scan .descriptor before ≠ .ok result := by
  intro hs
  obtain ⟨token, rest⟩ := result
  obtain ⟨ht, rfl⟩ := Token.scan_eq_ok_iff.mp hs
  -- Only one token stands at the start of the descriptor, and that is all of it.
  have hsame := ht.eq_of_prefix h.isToken ⟨rest ++ '|' :: after, by simp [he]⟩ (List.prefix_refl cs)
  have hlength := congrArg List.length (hsame.trans he)
  simp only [List.length_append, List.length_cons] at hlength
  omega

end IsDescriptor

/-! ## Evaluation -/

namespace JavaType

theorem toList_descriptor_arrayOf (t : JavaType) :
    (arrayOf t).descriptor.toList = '[' :: t.descriptor.toList := by
  simp [arrayOf]

theorem isDescriptor_primitive (p : Primitive) :
    IsDescriptor (primitive p).descriptor.toList := by
  show IsDescriptor (String.singleton p.letter).toList
  rw [String.toList_singleton]
  exact .primitive p

theorem toList_descriptor_ofBinaryName (n : BinaryName) :
    (ofBinaryName n).descriptor.toList = 'L' :: (n.text.toList ++ [';']) :=
  n.toList_descriptor

theorem isDescriptor_ofBinaryName (n : BinaryName) :
    IsDescriptor (ofBinaryName n).descriptor.toList := by
  rw [toList_descriptor_ofBinaryName]
  exact .classType n

theorem descriptor_of_withArguments {t u : JavaType} {arguments : List TypeArgument}
    (h : t.withArguments arguments = .ok u) : u.descriptor = t.descriptor := by
  unfold withArguments at h
  split at h
  · cases h
  · split at h <;> cases h <;> rfl

end JavaType

namespace Scope

theorem applyHead_eq_ok {text : String} {head : Except ResolveError JavaType}
    {arguments : List TypeArgument × Option ResolveError} {t : JavaType} :
    applyHead text head arguments = .ok t ↔
      ∃ u, head = .ok u ∧ arguments.2 = none ∧ u.withArguments arguments.1 = .ok t := by
  obtain ⟨as, e⟩ := arguments
  unfold applyHead
  cases head with
  | error cause => simp
  | ok u =>
    cases e with
    | some cause => simp
    | none =>
      cases hw : u.withArguments as <;> simp [hw]

-- By the recursion of evaluation: a bound is evaluated with one parameter less to visit.
mutual

theorem isDescriptor_of_evaluate {s : Scope} {visiting : List String} {e : TypeExpr} {t : JavaType}
    (h : s.evaluate visiting e = .ok t) : IsDescriptor t.descriptor.toList := by
  match e, h with
  | .primitive p, h =>
    rw [evaluate] at h
    cases h
    exact JavaType.isDescriptor_primitive p
  | .malformed cause, h =>
    rw [evaluate] at h
    cases h
  | .array element, h =>
    rw [evaluate] at h
    cases he : s.evaluate visiting element with
    | error cause => rw [he] at h; cases h
    | ok u =>
      rw [he] at h
      cases h
      rw [JavaType.toList_descriptor_arrayOf]
      exact .array (isDescriptor_of_evaluate he)
  | .named name, h =>
    rw [evaluate] at h
    exact isDescriptor_of_evaluateName h
  | .applied text head arguments, h =>
    rw [evaluate] at h
    obtain ⟨u, hu, -, hw⟩ := applyHead_eq_ok.mp h
    rw [JavaType.descriptor_of_withArguments hw]
    exact isDescriptor_of_evaluateName hu
termination_by (s.unvisited visiting, sizeOf e)
decreasing_by
  · exact Prod.Lex.right _ (by simp only [TypeExpr.array.sizeOf_spec]; omega)
  · exact Prod.Lex.right _ (by simp only [TypeExpr.named.sizeOf_spec]; omega)
  · exact Prod.Lex.right _ (by simp only [TypeExpr.applied.sizeOf_spec]; omega)

theorem isDescriptor_of_evaluateName {s : Scope} {visiting : List String} {name : String}
    {t : JavaType} (h : s.evaluateName visiting name = .ok t) :
    IsDescriptor t.descriptor.toList := by
  rw [evaluateName] at h
  split at h
  · cases h
  · split at h
    · cases hc : s.classOf name.toList with
      | error e => rw [hc] at h; cases h
      | ok n =>
        rw [hc] at h
        cases h
        exact JavaType.isDescriptor_ofBinaryName n
    · next p hp =>
      split at h
      · cases h
        exact JavaType.isDescriptor_ofBinaryName .object
      · split at h
        · cases h
        · next hv =>
          split at h
          · cases h
          · next head _ _ =>
            cases hb : s.evaluate (name :: visiting) (TypeExpr.parse head) with
            | error e => rw [hb] at h; cases h
            | ok bound =>
              rw [hb] at h
              cases h
              show IsDescriptor bound.descriptor.toList
              exact isDescriptor_of_evaluate hb
      · cases h
termination_by (s.unvisited visiting, 0)
-- A bound is read with its variable among the visited names, so fewer are left to visit.
decreasing_by exact Prod.Lex.left _ _ (unvisited_cons_lt ‹_› ‹_›)

end

end Scope
end JvmWeave
