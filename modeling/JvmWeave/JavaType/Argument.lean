import JvmWeave.JavaType.Erasure

/-!
# Type arguments

The arguments of a class stand between the last top-level `<` and its `>` in the generic form of the
type.  `typeArguments` reads them and `withArguments` writes them.

An `Argument` is open in what describes a type, because arguments are met in three stages: as text
in source, as type expressions, and as resolved types.  The wildcard around a type is the same in
all of them.

A generic form may have several groups of arguments, one for each class that the type runs through,
as in `Lp/Outer<TT;>.Inner<TU;>;`.  `angleGroups` cuts it at all of them in one pass that counts
brackets, and both directions go by the last group.  It is the group that comes last in the text,
which is that of the innermost class only if this class has one.  Writing looks at what follows the
last group: if it is more than the semicolon, the innermost class has no arguments yet and gets them
behind its name.  Reading takes the last group as it comes.

Writing replaces the generic form alone.  The descriptor stays, and that the two still belong
together is not checked.

Reading gives up silently.  Tokens are read up to the first that is malformed, and one that is a
token and no type is left out.  A text that is no generic form of a class has no arguments.
-/

set_option autoImplicit false

namespace JvmWeave

/-- One entry of a list of type arguments, over whatever describes a type. -/
inductive Argument (α : Type) where
  /-- A type itself. -/
  | just (type : α)
  /-- Any subtype of a type. -/
  | subtypesOf (type : α)
  /-- Any supertype of a type. -/
  | supertypesOf (type : α)
  /-- Any type. -/
  | any
  deriving DecidableEq, Repr

def Argument.type? {α : Type} : Argument α → Option α
  | just t | subtypesOf t | supertypesOf t => some t
  | any => none

/-- A type argument of a resolved type. -/
abbrev TypeArgument := Argument JavaType

/-- The argument that a token of a signature stands for. -/
def TypeArgument.ofToken? : List Char → Option TypeArgument
  | [] => none
  | c :: cs =>
    if c = '*' then some .any
    else if c = '+' then (JavaType.ofGeneric? cs).map .subtypesOf
    else if c = '-' then (JavaType.ofGeneric? cs).map .supertypesOf
    else (JavaType.ofGeneric? (c :: cs)).map .just

/-- The token of a signature for the argument. -/
def TypeArgument.token : TypeArgument → String
  | .any => "*"
  | .just t => t.full
  | .subtypesOf t => "+" ++ t.full
  | .supertypesOf t => "-" ++ t.full

/-! ## Groups in angle brackets -/

/-- A text cut at its outermost groups in angle brackets: for each group the text before it and the
text in it, and at last the text after all groups.  `outer` and `inside` are what was read of the
current pair, inside of `depth` open brackets.  A `>` that closes nothing leaves no cut at all; a
group that is not closed counts as text. -/
def angleGroupsFrom (depth : Nat) (outer inside : List Char) :
    List Char → Option (List (List Char × List Char) × List Char)
  | [] => some ([], if depth = 0 then outer else outer ++ '<' :: inside)
  | c :: cs =>
    if depth = 0 then
      if c = '<' then angleGroupsFrom 1 outer [] cs
      else if c = '>' then none
      else angleGroupsFrom 0 (outer ++ [c]) [] cs
    else if c = '<' then angleGroupsFrom (depth + 1) outer (inside ++ [c]) cs
    else if c = '>' then
      if depth = 1 then
        (angleGroupsFrom 0 [] [] cs).map fun (groups, rest) => ((outer, inside) :: groups, rest)
      else angleGroupsFrom (depth - 1) outer (inside ++ [c]) cs
    else angleGroupsFrom depth outer (inside ++ [c]) cs

def angleGroups (text : List Char) : Option (List (List Char × List Char) × List Char) :=
  angleGroupsFrom 0 [] [] text

/-- A text around its last outermost group in angle brackets. -/
structure LastGroup where
  before : List Char
  inside : List Char
  after : List Char
  deriving DecidableEq, Repr

/-- The last outermost group, if the text has one and its brackets match. -/
def lastGroup? (text : List Char) : Option LastGroup :=
  (angleGroups text).bind fun (groups, rest) =>
    groups.getLast?.map fun (outer, inside) =>
      let earlier := groups.dropLast.flatMap fun (outer, inside) => outer ++ '<' :: inside ++ ['>']
      ⟨earlier ++ outer, inside, rest⟩

theorem length_lt_of_mem_angleGroupsFrom {depth : Nat} {outer inside text rest : List Char}
    {groups : List (List Char × List Char)}
    (h : angleGroupsFrom depth outer inside text = some (groups, rest)) :
    ∀ group ∈ groups, group.2.length < inside.length + text.length := by
  induction text generalizing depth outer inside groups rest with
  | nil => cases h; simp
  | cons c cs ih =>
    have weaken {d : Nat} {o i : List Char} (hi : i.length ≤ inside.length + 1)
        (h : angleGroupsFrom d o i cs = some (groups, rest)) :
        ∀ group ∈ groups, group.2.length < inside.length + (c :: cs).length := by
      intro group hg
      have := ih h group hg
      simp only [List.length_cons]
      omega
    rw [angleGroupsFrom] at h
    split at h
    · split at h
      · exact weaken (by simp) h
      · split at h
        · cases h
        · exact weaken (by simp) h
    · split at h
      · exact weaken (by simp) h
      · split at h
        · split at h
          · obtain ⟨⟨gs, r⟩, hr, he⟩ := Option.map_eq_some_iff.1 h
            cases he
            intro group hg
            rcases List.mem_cons.1 hg with rfl | hg
            · simp
            · have := ih hr group hg
              simp only [List.length_nil, List.length_cons] at this ⊢
              omega
          · exact weaken (by simp) h
        · exact weaken (by simp) h

theorem length_inside_lt {text : List Char} {group : LastGroup} (h : lastGroup? text = some group) :
    group.inside.length < text.length := by
  rw [lastGroup?, Option.bind_eq_some_iff] at h
  obtain ⟨⟨groups, rest⟩, hg, h⟩ := h
  obtain ⟨⟨outer, inside⟩, hl, rfl⟩ := Option.map_eq_some_iff.1 h
  have := length_lt_of_mem_angleGroupsFrom hg _ (List.mem_of_getLast? hl)
  simpa using this

/-! ## Reading and writing arguments -/

/-- The tokens of a list of type arguments, up to the first that is malformed. -/
def argumentTokens (text : List Char) : List (List Char) :=
  if text = [] then []
  else
    match _h : readArgumentToken text with
    | .error _ => []
    | .ok (token, rest) => token :: argumentTokens rest
termination_by text.length
decreasing_by exact readArgumentToken_length_lt _h

theorem length_le_of_mem_argumentTokens {text token : List Char} (h : token ∈ argumentTokens text) :
    token.length ≤ text.length := by
  fun_induction argumentTokens text with
  | case1 => simp at h
  | case2 => simp at h
  | case3 text _ first rest hr ih =>
    have total := congrArg List.length (readArgumentToken_append hr)
    rw [List.length_append] at total
    rcases List.mem_cons.1 h with rfl | h
    · omega
    · have := ih h
      omega

namespace JavaType

def typeArguments (t : JavaType) : List TypeArgument :=
  match t.signature.map String.toList with
  | some ('L' :: rest) =>
    match lastGroup? ('L' :: rest) with
    | some group => (argumentTokens group.inside).filterMap TypeArgument.ofToken?
    | none => []
  | _ => []

/-- The type with these arguments in place of those of its innermost class. -/
def withArguments (t : JavaType) (arguments : List TypeArgument) : Except Malformed JavaType :=
  if t.category ≠ .classType ∨ t.isVariable then
    .error ⟨.signature, t.full, 0, .argumentsOnOther⟩
  else if arguments = [] then .ok t
  else
    let full := t.full.toList
    let base :=
      match lastGroup? full with
      | some group => if Text.utf8Length group.after = 1 then group.before else full.dropLast
      | none => full.dropLast
    let tokens := arguments.flatMap fun a => a.token.toList
    .ok ⟨t.descriptor, some (String.ofList (base ++ '<' :: tokens ++ ['>', ';']))⟩

def withArgument (t argument : JavaType) : Except Malformed JavaType :=
  t.withArguments [.just argument]

/-- The length of the generic form. -/
def signatureLength (t : JavaType) : Nat :=
  t.signature.elim 0 fun s => s.toList.length

theorem signatureLength_le_of_ofGeneric? {signature : List Char} {t : JavaType}
    (h : ofGeneric? signature = some t) : t.signatureLength ≤ signature.length := by
  rcases signature_of_ofGeneric? h with h | h <;> simp [signatureLength, h]

theorem signatureLength_le_of_ofToken? {token : List Char} {a : TypeArgument} {t : JavaType}
    (h : TypeArgument.ofToken? token = some a) (ht : a.type? = some t) :
    t.signatureLength ≤ token.length := by
  cases token with
  | nil => cases h
  | cons c cs =>
    rw [TypeArgument.ofToken?] at h
    split at h
    · cases h; cases ht
    · split at h
      · obtain ⟨u, hu, rfl⟩ := Option.map_eq_some_iff.1 h
        cases ht
        exact Nat.le_succ_of_le (signatureLength_le_of_ofGeneric? hu)
      · split at h
        · obtain ⟨u, hu, rfl⟩ := Option.map_eq_some_iff.1 h
          cases ht
          exact Nat.le_succ_of_le (signatureLength_le_of_ofGeneric? hu)
        · obtain ⟨u, hu, rfl⟩ := Option.map_eq_some_iff.1 h
          cases ht
          exact signatureLength_le_of_ofGeneric? hu

/-- Arguments are written inside of the generic form, so theirs are shorter. -/
theorem signatureLength_lt_of_mem_typeArguments {t u : JavaType} {a : TypeArgument}
    (ha : a ∈ t.typeArguments) (hu : a.type? = some u) : u.signatureLength < t.signatureLength := by
  rw [typeArguments] at ha
  split at ha
  · next rest hs =>
    obtain ⟨s, hs, hl⟩ := Option.map_eq_some_iff.1 hs
    split at ha
    · next group hg =>
      obtain ⟨token, ht, ha⟩ := List.mem_filterMap.1 ha
      have h₁ := signatureLength_le_of_ofToken? ha hu
      have h₂ := length_le_of_mem_argumentTokens ht
      have h₃ := length_inside_lt hg
      rw [← hl] at h₃
      simp only [signatureLength, hs, Option.elim_some]
      unfold signatureLength at h₁
      omega
    · cases ha
  · cases ha

end JavaType

end JvmWeave
