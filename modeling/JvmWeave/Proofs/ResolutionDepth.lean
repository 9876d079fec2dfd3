import JvmWeave.Proofs.NestedScope

/-!
# The depth of resolution

`Scope.resolve` reads a text as an expression and evaluates that.  Here the text is resolved as it
is read: its parts are texts again, and so are the bounds that its names lead to.  A bound may be
longer than the text that led to it, so the recursion is given a limit.  `resolveWithin_resolve`
names one that is never met: then every call returns, and the result is that of `Scope.resolve`.
-/

set_option autoImplicit false

namespace JvmWeave

open Text

/-- A result, if there was one within the limit. -/
abbrev Limited (α : Type) := Option (Except ResolveError α)

namespace Scope

/-- The argument that the text means, where `read` resolves the type in it. -/
def argumentBy (read : List Char → Limited JavaType) (argument : List Char) :
    Limited TypeArgument :=
  match splitWildcard argument with
  | .any => some (.ok .any)
  | .just type => (read type).map (Except.map .just)
  | .subtypesOf type => (read type).map (Except.map .subtypesOf)
  | .supertypesOf type => (read type).map (Except.map .supertypesOf)

/-- The arguments in front of the first that fails, and its error.  None is read behind it. -/
def argumentsBy (read : List Char → Limited JavaType) :
    List (List Char) → Option (List TypeArgument × Option ResolveError)
  | [] => some ([], none)
  | argument :: rest =>
    match argumentBy read argument with
    | none => none
    | some (.error e) => some ([], some e)
    | some (.ok a) => (argumentsBy read rest).map fun found => (a :: found.1, found.2)

/-- The type that a name means, where `read` resolves its bound. -/
def nameBy (s : Scope) (read : List String → List Char → Limited JavaType)
    (visiting : List String) (name : String) : Limited JavaType :=
  if name = "" ∨ name.toList.any isBlank then some (.error (.unresolvable name))
  else
    match s.parameter? name with
    | none => some ((s.classOf name.toList).map .ofBinaryName)
    | some p =>
      match p.bounds with
      | [] => some (.ok (.typeVariable name .object))
      | [bound] =>
        if name ∈ visiting then some (.error (.unresolvable name))
        else
          match splitGeneric (trim bound.toList) with
          | .error cause => some (.error (.malformed cause))
          | .ok (head, _) => (read (name :: visiting) head).map (Except.map (.typeVariable name))
      | bounds => some (.error (.severalBounds name bounds))

/-- The type that the text means, if no more than `limit` calls are under way at once. -/
def resolveWithin (s : Scope) : Nat → List String → List Char → Limited JavaType
  | 0, _, _ => none
  | limit + 1, visiting, text =>
    match stripSuffix? ['[', ']'] text with
    | some element => (s.resolveWithin limit visiting (trimEnd element)).map (Except.map .arrayOf)
    | none =>
      match Primitive.ofKeyword? (String.ofList text) with
      | some p => some (.ok (.primitive p))
      | none =>
        match splitGeneric text with
        | .error cause => some (.error (.malformed cause))
        | .ok (head, none) => s.nameBy (s.resolveWithin limit) visiting (String.ofList head)
        | .ok (head, some list) =>
          match s.nameBy (s.resolveWithin limit) visiting (String.ofList head),
            argumentsBy (s.resolveWithin limit visiting) (splitArguments list) with
          | some type, some arguments => some (applyHead (String.ofList text) type arguments)
          | _, _ => none

/-! ## How deep it goes -/

/-- The length of the longest bound that is declared. -/
def longestBound (s : Scope) : Nat :=
  ((s.typeParameters.flatMap (·.bounds)).map String.length).max?.getD 0

/-- How many calls are under way at most for a text of this length. -/
def depth (s : Scope) (visiting : List String) (length : Nat) : Nat :=
  length + 1 + s.unvisited visiting * (s.longestBound + 1)

theorem length_le_longestBound {s : Scope} {name bound : String} {p : TypeParameter}
    (hp : s.parameter? name = some p) (hb : bound ∈ p.bounds) :
    bound.length ≤ s.longestBound := by
  have hmem : bound ∈ s.typeParameters.flatMap (·.bounds) :=
    List.mem_flatMap.mpr ⟨p, List.mem_of_find?_eq_some hp, hb⟩
  exact List.le_max?_getD_of_mem (List.mem_map_of_mem hmem)

/-- What is shorter than the text needs fewer calls. -/
theorem depth_lt_of_length {s : Scope} {visiting : List String} {part whole : Nat}
    (h : part < whole) : s.depth visiting part < s.depth visiting whole := by
  unfold depth
  omega

/-- A bound may be longer than the text, but it is read with one parameter less. -/
theorem depth_bound_lt {s : Scope} {visiting : List String} {name bound : String}
    {p : TypeParameter} (hp : s.parameter? name = some p) (hb : bound ∈ p.bounds)
    (hv : name ∉ visiting) {part : Nat} (hpart : part ≤ bound.length) (whole : Nat) :
    s.depth (name :: visiting) part < s.depth visiting whole := by
  have hlongest : part ≤ s.longestBound := hpart.trans (length_le_longestBound hp hb)
  have hunvisited : s.unvisited (name :: visiting) + 1 ≤ s.unvisited visiting :=
    unvisited_cons_lt hp hv
  have hround : (s.unvisited (name :: visiting) + 1) * (s.longestBound + 1) ≤
      s.unvisited visiting * (s.longestBound + 1) := Nat.mul_le_mul_right _ hunvisited
  rw [Nat.succ_mul] at hround
  unfold depth
  omega

theorem length_head_le {text head : List Char} {list : Option (List Char)}
    (h : splitGeneric text = .ok (head, list)) : head.length ≤ text.length := by
  cases list with
  | none => rw [(splitGeneric_none h).1]
  | some list =>
    unfold splitGeneric at h
    split at h
    · split at h <;> cases h
    · split at h
      · split at h
        · cases h
        · cases h
          exact (length_trimEnd_le _).trans (List.takeWhile_sublist _).length_le
      · cases h

/-! ## Each part returns -/

section Parts

variable {read : List Char → Limited JavaType} {f : List Char → Except ResolveError JavaType}

theorem argumentBy_eq {argument : List Char}
    (h : ∀ type, (splitWildcard argument).type? = some type → read type = some (f type)) :
    argumentBy read argument = some ((splitWildcard argument).traverse f) := by
  unfold argumentBy
  cases hw : splitWildcard argument with
  | any => rfl
  | just type | subtypesOf type | supertypesOf type =>
    have hr := h type (by rw [hw]; rfl)
    dsimp only
    rw [hr]
    rfl

theorem argumentsBy_eq {arguments : List (List Char)}
    (h : ∀ argument ∈ arguments, ∀ type, (splitWildcard argument).type? = some type →
      read type = some (f type)) :
    argumentsBy read arguments =
      some (untilError (arguments.map fun argument => (splitWildcard argument).traverse f)) := by
  induction arguments with
  | nil => rfl
  | cons argument rest ih =>
    obtain ⟨hargument, hrest⟩ := List.forall_mem_cons.mp h
    rw [argumentsBy, argumentBy_eq hargument, ih hrest, List.map_cons]
    cases (splitWildcard argument).traverse f <;> rfl

end Parts

theorem parseArgument_traverse {f : TypeExpr → Except ResolveError JavaType}
    (argument : List Char) :
    (TypeExpr.parseArgument argument).traverse f =
      (splitWildcard argument).traverse fun type => f (.parse type) := by
  unfold TypeExpr.parseArgument
  cases splitWildcard argument <;> rfl

theorem nameBy_eq {s : Scope} {read : List String → List Char → Limited JavaType}
    {visiting : List String} {name : String}
    (h : ∀ p bound, s.parameter? name = some p → bound ∈ p.bounds → name ∉ visiting →
      ∀ head : List Char, head.length ≤ bound.length →
        read (name :: visiting) head = some (s.evaluate (name :: visiting) (.parse head))) :
    s.nameBy read visiting name = some (s.evaluateName visiting name) := by
  rw [evaluateName_eq]
  unfold nameBy
  split
  · rfl
  · cases hp : s.parameter? name with
    | none => rfl
    | some p =>
      dsimp only
      match hb : p.bounds with
      | [] => rfl
      | [bound] =>
        by_cases hv : name ∈ visiting
        · simp only [if_pos hv]
        · cases hg : splitGeneric (trim bound.toList) with
          | error cause => simp only [if_neg hv, hg]
          | ok cut =>
            have hlength : cut.1.length ≤ bound.length :=
              (length_head_le hg).trans (length_trim_le bound.toList)
            have hread := h p bound hp (hb ▸ List.mem_singleton_self bound) hv cut.1 hlength
            simp only [if_neg hv, hg, hread, Option.map_some]
      | _ :: _ :: _ => rfl

/-! ## The whole returns -/

theorem resolveWithin_eq {s : Scope} {limit : Nat} {visiting : List String} {text : List Char}
    (h : s.depth visiting text.length ≤ limit) :
    s.resolveWithin limit visiting text = some (s.evaluate visiting (.parse text)) := by
  induction limit generalizing visiting text with
  | zero =>
    unfold depth at h
    omega
  | succ limit ih =>
    have hpart : ∀ part : List Char, part.length < text.length →
        s.resolveWithin limit visiting part = some (s.evaluate visiting (.parse part)) := by
      intro part hlt
      exact ih (Nat.le_of_lt_succ ((depth_lt_of_length hlt).trans_le h))
    have hname : ∀ name, s.nameBy (s.resolveWithin limit) visiting name =
        some (s.evaluateName visiting name) := by
      intro name
      apply nameBy_eq
      intro p bound hp hb hv head hle
      exact ih (Nat.le_of_lt_succ ((depth_bound_lt hp hb hv hle text.length).trans_le h))
    rw [resolveWithin]
    cases ha : stripSuffix? ['[', ']'] text with
    | some element =>
      have hlt : (trimEnd element).length < text.length := length_trimEnd_lt (by simp) ha
      dsimp only
      rw [hpart _ hlt, TypeExpr.parse_array ha, evaluate]
      cases s.evaluate visiting (.parse (trimEnd element)) <;> rfl
    | none =>
      cases hk : Primitive.ofKeyword? (String.ofList text) with
      | some p =>
        rw [TypeExpr.parse_keyword ha hk, evaluate]
      | none =>
        rw [TypeExpr.parse_generic ha hk]
        match hg : splitGeneric text with
        | .error cause => simp only [evaluate]
        | .ok (head, none) => simp only [evaluate, hname]
        | .ok (head, some list) =>
          have harguments : ∀ argument ∈ splitArguments list, ∀ type,
              (splitWildcard argument).type? = some type →
              s.resolveWithin limit visiting type = some (s.evaluate visiting (.parse type)) := by
            intro argument hm type ht
            have hargument := length_le_of_mem_splitArguments hm
            have hlist := length_lt_of_splitGeneric hg
            exact hpart type ((length_le_of_splitWildcard ht).trans_lt (hargument.trans_lt hlist))
          have hparsed : (splitArguments list).map (fun argument =>
              (splitWildcard argument).traverse fun type => s.evaluate visiting (.parse type)) =
              ((splitArguments list).map TypeExpr.parseArgument).map
                (Argument.traverse (s.evaluate visiting)) := by
            rw [List.map_map]
            exact List.map_congr_left fun argument _ => (parseArgument_traverse argument).symm
          simp only [hname, argumentsBy_eq harguments, hparsed, evaluate_applied]

/-- How many calls are under way at most while a text is resolved. -/
def resolutionDepth (s : Scope) (text : String) : Nat :=
  text.length + 1 + s.typeParameters.length * (s.longestBound + 1)

theorem resolveWithin_resolve {s : Scope} {text : String} {limit : Nat}
    (h : s.resolutionDepth text ≤ limit) :
    s.resolveWithin limit [] (trim text.toList) = some (s.resolve text) := by
  refine resolveWithin_eq (Nat.le_trans ?_ h)
  have hall : s.unvisited [] = s.typeParameters.length := by simp [unvisited]
  have htrim : (trim text.toList).length ≤ text.length := length_trim_le text.toList
  unfold depth resolutionDepth
  rw [hall]
  omega

end Scope
end JvmWeave
