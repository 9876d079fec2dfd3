import JvmWeave.JavaType.Argument
import JvmWeave.Text.Blank

/-!
# Type expressions

Types as they are written in source.  `TypeExpr.parse` reads the whole grammar without looking at
any scope: a type is a keyword, a name, a name with arguments in angle brackets, or one of these
followed by `[]`.

Reading is total.  Text with brackets that do not match is kept as a malformed expression, so that
it fails only where it is used, and behind whatever fails before it.  An application keeps its own
text next to its parts, because errors show the name as it was written, blanks included.

The cut at angle brackets is by the first `<` and the last character, which has to be its `>`.  What
is in between has to be balanced; if it is not, the error points at the first `>` without a partner,
or at the end of the list if a bracket is left open.  Offsets count bytes.  Arguments are cut at the
commas outside of brackets, so that the commas of nested applications stay where they are.

Recursion is on the length of the text: arrays and arguments are proper parts of it.  The lemmas on
lengths between the definitions say just that, one for each function that takes a text apart, and
are used for termination alone.
-/

set_option autoImplicit false

namespace JvmWeave

open Text

/-! ## Angle brackets in names -/

/-- The byte offset of the first `>` that closes nothing inside of `depth` open brackets, or of the
end if a bracket is left open there. -/
def firstMismatch? (depth : Nat) : List Char → Option Nat
  | [] => if depth = 0 then none else some 0
  | c :: cs =>
    if c = '>' ∧ depth = 0 then some 0
    else
      let inner := if c = '<' then depth + 1 else if c = '>' then depth - 1 else depth
      (firstMismatch? inner cs).map (c.utf8Size + ·)

/-- A name cut into the part before its arguments and, if there are brackets at all, what stands
between the first `<` and the `>` that must end the name. -/
def splitGeneric (name : List Char) : Except Malformed (List Char × Option (List Char)) :=
  let mismatched (offset : Nat) : Malformed :=
    ⟨.signature, String.ofList name, offset, .mismatchedAngles⟩
  match name.dropWhile (· ≠ '<') with
  | [] =>
    if '>' ∈ name then .error (mismatched (utf8Length (name.takeWhile (· ≠ '>'))))
    else .ok (name, none)
  | _ :: rest =>
    let head := name.takeWhile (· ≠ '<')
    if rest.getLast? = some '>' then
      match firstMismatch? 0 rest.dropLast with
      | some offset => .error (mismatched (utf8Length head + 1 + offset))
      | none => .ok (trimEnd head, some rest.dropLast)
    else .error (mismatched (utf8Length name))

/-- The pieces of a list of arguments between the commas outside of brackets. -/
def splitCommas (depth : Nat) : List Char → List (List Char)
  | [] => [[]]
  | c :: cs =>
    if c = ',' ∧ depth = 0 then [] :: splitCommas 0 cs
    else
      let inner := if c = '<' then depth + 1 else if c = '>' then depth - 1 else depth
      extendFirst c (splitCommas inner cs)

def splitArguments (list : List Char) : List (List Char) :=
  (splitCommas 0 list).map trim

/-- The wildcard in front of an argument and the type behind it. -/
def splitWildcard (argument : List Char) : Argument (List Char) :=
  match argument with
  | [] => .just []
  | c :: rest =>
    if c = '?' then
      if rest = [] then .any
      else
        match stripPrefix? "extends ".toList (trimStart rest) with
        | some upper => .subtypesOf (trim upper)
        | none =>
          match stripPrefix? "super ".toList (trimStart rest) with
          | some lower => .supertypesOf (trim lower)
          | none => .just argument
    else .just argument

theorem length_le_of_mem_splitCommas {depth : Nat} {list piece : List Char}
    (h : piece ∈ splitCommas depth list) : piece.length ≤ list.length := by
  induction list generalizing depth piece with
  | nil => simp_all [splitCommas]
  | cons c cs ih =>
    rw [splitCommas] at h
    split at h
    · rcases List.mem_cons.1 h with rfl | h
      · simp
      · exact Nat.le_succ_of_le (ih h)
    · exact length_le_of_mem_extendFirst (fun p hp => ih hp) h

theorem length_le_of_mem_splitArguments {list argument : List Char}
    (h : argument ∈ splitArguments list) : argument.length ≤ list.length := by
  obtain ⟨piece, hp, rfl⟩ := List.mem_map.1 h
  exact Nat.le_trans (length_trim_le piece) (length_le_of_mem_splitCommas hp)

theorem length_le_of_splitWildcard {argument type : List Char}
    (h : (splitWildcard argument).type? = some type) : type.length ≤ argument.length := by
  have strip {beginning rest bound : List Char}
      (h : stripPrefix? beginning (trimStart rest) = some bound) :
      (trim bound).length ≤ rest.length := by
    have h₁ := congrArg List.length (stripPrefix?_eq_some_iff.1 h)
    have h₂ := length_trimStart_le rest
    have h₃ := length_trim_le bound
    rw [List.length_append] at h₁
    omega
  rw [splitWildcard.eq_def] at h
  split at h
  · cases h; simp
  · next c rest =>
    split at h
    · split at h
      · cases h
      · split at h
        · next upper hu => cases h; exact Nat.le_succ_of_le (strip hu)
        · split at h
          · next lower hl => cases h; exact Nat.le_succ_of_le (strip hl)
          · cases h; simp
    · cases h; simp

theorem length_lt_of_splitGeneric {name head list : List Char}
    (h : splitGeneric name = .ok (head, some list)) : list.length < name.length := by
  rw [splitGeneric] at h
  split at h
  · split at h <;> cases h
  · next c rest hr =>
    have total := (List.dropWhile_sublist (l := name) (· ≠ '<')).length_le
    split at h
    · split at h
      · cases h
      · cases h
        rw [hr] at total
        simp only [List.length_dropLast, List.length_cons] at total ⊢
        omega
    · cases h

/-! ## Expressions -/

/-- A type as it is written. -/
inductive TypeExpr where
  | primitive (p : Primitive)
  /-- A name without arguments. -/
  | named (name : String)
  | array (element : TypeExpr)
  /-- A name with arguments; `text` is the whole of it as it is written. -/
  | applied (text head : String) (arguments : List (Argument TypeExpr))
  /-- Text with brackets that do not match. -/
  | malformed (cause : Malformed)

namespace TypeExpr

/-- Reads a type that has no blanks around it. -/
def parse (text : List Char) : TypeExpr :=
  match _hs : stripSuffix? ['[', ']'] text with
  | some element => .array (parse (trimEnd element))
  | none =>
    match Primitive.ofKeyword? (String.ofList text) with
    | some p => .primitive p
    | none =>
      match _hg : splitGeneric text with
      | .error cause => .malformed cause
      | .ok (head, none) => .named (String.ofList head)
      | .ok (head, some list) =>
        let arguments := (splitArguments list).attach.map fun ⟨argument, _⟩ =>
          match _hw : splitWildcard argument with
          | .any => .any
          | .just type => .just (parse type)
          | .subtypesOf type => .subtypesOf (parse type)
          | .supertypesOf type => .supertypesOf (parse type)
        .applied (String.ofList text) (String.ofList head) arguments
termination_by text.length
decreasing_by
  · have h₁ := congrArg List.length (stripSuffix?_eq_some_iff.1 _hs)
    have h₂ := length_trimEnd_le element
    simp only [List.length_append, List.length_cons, List.length_nil] at h₁
    omega
  all_goals
    have h₁ := length_lt_of_splitGeneric _hg
    have h₂ := length_le_of_mem_splitArguments ‹argument ∈ splitArguments list›
    have h₃ : type.length ≤ argument.length := length_le_of_splitWildcard (by rw [_hw]; rfl)
    omega

def ofString (text : String) : TypeExpr :=
  parse (trim text.toList)

end TypeExpr

end JvmWeave
