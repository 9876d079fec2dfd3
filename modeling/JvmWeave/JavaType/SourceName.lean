import JvmWeave.JavaType.Argument
import JvmWeave.Text.Diagnostic

/-!
# Types as source writes them

Types as Java source writes them, fully qualified: `java.util.Map.Entry<K, ? extends V[]>`.  Nested
classes are written with a dot.  The members of a union have ` | ` between them, and a value of
unknown type is written `?`.

This is the text of messages and of rendered declarations, so it is total: a type with an ill-formed
part has a text as well, in which that part stands as it is.

The function follows the type into its elements, its arguments and the members of a union.  None of
these is a part of the data, they are all read off texts, so that the recursion needs a measure.  It
is the pair of the lengths of both texts, with the generic form first (`size`): an argument comes
out of the generic form, while an element or a member of a type without one has only its descriptor
to get shorter.  The three lemmas in front of `javaName` are the three ways down.
-/

set_option autoImplicit false

namespace JvmWeave

/-- Type arguments in angle brackets behind the name of a class.  Without arguments there are no
brackets. -/
def withArgumentList (name : String) (arguments : List String) : String :=
  if arguments = [] then name else name ++ "<" ++ String.intercalate ", " arguments ++ ">"

/-- A dotted name with nested classes after a dot. -/
def nestedWithDots (name : String) : String :=
  String.ofList (Text.replace '$' '.' name.toList)

namespace JavaType

/-- Both sizes of a type, the generic form first.  All that a type consists of is smaller. -/
def size (t : JavaType) : Nat × Nat :=
  (t.signatureLength, t.descriptor.toList.length)

theorem size_element_lt {t e : JavaType} (h : t.element? = some e) :
    Prod.Lex (· < ·) (· < ·) e.size t.size := by
  rw [element?] at h
  split at h
  · next rest hd =>
    cases h
    cases hs : t.signature with
    | none =>
      simp only [size, signatureLength, hs, hd, Option.bind_none, Option.elim_none]
      exact Prod.Lex.right _ (by simp)
    | some s =>
      cases hp : Text.stripPrefix? ['['] s.toList with
      | none =>
        simp only [size, signatureLength, hs, hd, hp, Option.bind_some, Option.map_none,
          Option.elim_none, Option.elim_some]
        rcases Nat.eq_zero_or_pos s.toList.length with h0 | h0
        · rw [h0]; exact Prod.Lex.right _ (by simp)
        · exact Prod.Lex.left _ _ h0
      | some r =>
        have := Text.stripPrefix?_eq_some_iff.1 hp
        simp only [size, signatureLength, hs, hd, hp, Option.bind_some, Option.map_some,
          Option.elim_some]
        exact Prod.Lex.left _ _ (by simp [this])
  · cases h

theorem size_member_lt {t : JavaType} {member : List Char} (hc : t.category = .union)
    (h : member ∈ Text.split '|' t.descriptor.toList) :
    Prod.Lex (· < ·) (· < ·) (erased (String.ofList member)).size t.size := by
  have hm : '|' ∈ t.descriptor.toList := by
    by_cases hv : t.descriptor = "?"
    · simp [category, hv] at hc
    · by_cases hb : '|' ∈ t.descriptor.toList
      · exact hb
      · simp only [category, hv, if_false, List.contains_eq_mem, hb, decide_false,
          Bool.false_eq_true] at hc
        split at hc
        · cases hc
        · split at hc
          · cases hc
          · split at hc
            · cases hc
            · split at hc <;> cases hc
  have lt := Text.length_lt_of_mem_split hm h
  simp only [size, erased, signatureLength, Option.elim_none, String.toList_ofList]
  rcases Nat.eq_zero_or_pos (t.signature.elim 0 fun s => s.toList.length) with h0 | h0
  · rw [h0]; exact Prod.Lex.right _ lt
  · exact Prod.Lex.left _ _ h0

theorem size_argument_lt {t u : JavaType} {a : TypeArgument} (ha : a ∈ t.typeArguments)
    (hu : a.type? = some u) : Prod.Lex (· < ·) (· < ·) u.size t.size :=
  Prod.Lex.left _ _ (signatureLength_lt_of_mem_typeArguments ha hu)

/-- The type as Java source writes it, fully qualified. -/
def javaName (t : JavaType) : String :=
  match _hc : t.category with
  | .value => "?"
  | .union =>
    let members := (Text.split '|' t.descriptor.toList).attach.map fun ⟨member, _⟩ =>
      match requireToken .descriptor (String.ofList member) with
      | .ok _ => (erased (String.ofList member)).javaName
      | .error _ => String.ofList member
    String.intercalate " | " members
  | .array =>
    match _he : t.element? with
    | some element => element.javaName ++ "[]"
    | none => t.descriptor
  | .classType =>
    match t.variableName? with
    | some name => name
    | none =>
      let arguments := t.typeArguments.attach.map fun ⟨a, _⟩ =>
        match a with
        | .any => "?"
        | .just u => u.javaName
        | .subtypesOf u => "? extends " ++ u.javaName
        | .supertypesOf u => "? super " ++ u.javaName
      withArgumentList (nestedWithDots (t.className?.getD t.descriptor)) arguments
  | .primitive _ =>
    match t.primitive? with
    | some p => p.keyword
    | none => "?"
termination_by t.size
decreasing_by
  · exact size_member_lt _hc ‹_›
  · exact size_element_lt _he
  all_goals exact size_argument_lt ‹_› rfl

end JavaType

def TypeArgument.javaName : TypeArgument → String
  | .any => "?"
  | .just t => t.javaName
  | .subtypesOf t => "? extends " ++ t.javaName
  | .supertypesOf t => "? super " ++ t.javaName

def JavaType.diagnostic (t : JavaType) : String :=
  Text.Diagnostic.record "Type"
    [("descriptor", Text.quoted t.descriptor),
      ("signature", Text.Diagnostic.option (t.signature.map Text.quoted))]

end JvmWeave
