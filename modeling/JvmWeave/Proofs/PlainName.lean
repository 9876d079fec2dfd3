import Mathlib.Data.List.TakeWhile
import JvmWeave.Proofs.Pieces
import JvmWeave.Scope.Resolve

/-!
# Names without arguments

A name that needs no further reading is a type expression of its own, and what it means is decided
by the type parameters and the classes of the scope alone.
-/

set_option autoImplicit false

namespace JvmWeave

open Text

/-- A text that is read as a name: no blanks, no brackets, and no keyword. -/
structure PlainName (name : List Char) : Prop where
  ne_nil : name ≠ []
  notBlank : ∀ c ∈ name, isBlank c = false
  noOpen : '<' ∉ name
  noClose : '>' ∉ name
  noArray : stripSuffix? ['[', ']'] name = none
  noKeyword : Primitive.ofKeyword? (String.ofList name) = none

/-- A text with a character that no keyword has is none. -/
theorem ofKeyword?_eq_none {c : Char} {text : List Char}
    (hc : ∀ p : Primitive, c ∉ p.keyword.toList) (h : c ∈ text) :
    Primitive.ofKeyword? (String.ofList text) = none := by
  rw [Option.eq_none_iff_forall_ne_some]
  intro p hk
  rw [Primitive.ofKeyword?_eq_some_iff] at hk
  rw [← String.toList_ofList (l := text), ← hk] at h
  exact hc p h

/-- No keyword has a dot. -/
theorem ofKeyword?_of_dot {name : List Char} (h : '.' ∈ name) :
    Primitive.ofKeyword? (String.ofList name) = none :=
  ofKeyword?_eq_none (fun p => by cases p <;> decide) h

theorem splitGeneric_of_plain {name : List Char} (ho : '<' ∉ name) (hc : '>' ∉ name) :
    splitGeneric name = .ok (name, none) := by
  have hd : name.dropWhile (· ≠ '<') = [] :=
    List.dropWhile_eq_nil_iff.mpr fun c hm => decide_eq_true fun e : c = '<' => ho (e ▸ hm)
  unfold splitGeneric
  rw [hd]
  exact if_neg hc

namespace TypeExpr

theorem parse_of_plain {name : List Char} (h : PlainName name) :
    parse name = .named (String.ofList name) := by
  rw [parse]
  split
  · next he => rw [h.noArray] at he; cases he
  · rw [h.noKeyword]
    dsimp only
    split
    · next hg => rw [splitGeneric_of_plain h.noOpen h.noClose] at hg; cases hg
    · next hg => rw [splitGeneric_of_plain h.noOpen h.noClose] at hg; cases hg; rfl
    · next hg => rw [splitGeneric_of_plain h.noOpen h.noClose] at hg; cases hg

theorem ofString_of_plain {name : List Char} (h : PlainName name) :
    ofString (String.ofList name) = .named (String.ofList name) := by
  unfold ofString
  rw [String.toList_ofList, trim_of_not_blank h.notBlank, parse_of_plain h]

end TypeExpr

/-- Names that are not refused at once. -/
theorem evaluable_of_notBlank {name : List Char} (hne : name ≠ [])
    (hb : ∀ c ∈ name, isBlank c = false) :
    ¬(String.ofList name = "" ∨ (String.ofList name).toList.any isBlank = true) := by
  rw [String.toList_ofList, List.any_eq_true]
  rintro (he | ⟨c, hc, hblank⟩)
  · exact hne (by simpa using congrArg String.toList he)
  · rw [hb c hc] at hblank
    cases hblank

namespace Scope

theorem classNamed_eq_ok_iff {name binary : List Char} {n : BinaryName} :
    classNamed name binary = .ok n ↔ n.text = String.ofList binary := by
  unfold classNamed
  rw [← BinaryName.ofString_eq_ok_iff]
  cases BinaryName.ofString (String.ofList binary) <;> simp

/-- A plain name that is no type parameter means a class. -/
theorem resolve_of_plain {s : Scope} {name : List Char} (h : PlainName name)
    (hp : s.parameter? (String.ofList name) = none) :
    s.resolve (String.ofList name) = (s.classOf name).map .ofBinaryName := by
  unfold resolve
  rw [TypeExpr.ofString_of_plain h, evaluate, evaluateName,
    if_neg (evaluable_of_notBlank h.ne_nil h.notBlank)]
  split
  · rw [String.toList_ofList]
  · next p hp' => rw [hp] at hp'; cases hp'

end Scope
end JvmWeave
