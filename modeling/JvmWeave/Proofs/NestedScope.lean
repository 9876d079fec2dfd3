import JvmWeave.Proofs.Reading

/-!
# Nested scopes

Entering a declaration puts its type parameters in front of those in scope.  A bound is read where
it is used and not where it was written, so a new parameter also stands in for the old one of its
name in the bounds of all others.  What a text means depends on the names that it reaches, which
are those it mentions and those that the bounds of these mention in turn; parameters of any other
name change nothing.
-/

set_option autoImplicit false

namespace JvmWeave

open Text

/-! ## Names -/

/-- The expression mentions the name. -/
inductive TypeExpr.Mentions : TypeExpr → String → Prop
  | named (name : String) : Mentions (.named name) name
  | array {element : TypeExpr} {name : String} (h : Mentions element name) :
    Mentions (.array element) name
  | head (text head : String) (arguments : List (Argument TypeExpr)) :
    Mentions (.applied text head arguments) head
  | argument {text head name : String} {arguments : List (Argument TypeExpr)}
    {argument : Argument TypeExpr} {type : TypeExpr} (hm : argument ∈ arguments)
    (ht : argument.type? = some type) (h : Mentions type name) :
    Mentions (.applied text head arguments) name

theorem TypeExpr.mentions_named_iff {name mentioned : String} :
    (named name).Mentions mentioned ↔ mentioned = name := by
  constructor
  · rintro ⟨⟩
    rfl
  · rintro rfl
    exact .named mentioned

/-- The bound that a parameter erases to, without its arguments. -/
def TypeParameter.erasedBound? (p : TypeParameter) : Option TypeExpr :=
  match p.bounds with
  | [bound] =>
    match splitGeneric (trim bound.toList) with
    | .ok (head, _) => some (.parse head)
    | .error _ => none
  | _ => none

theorem TypeParameter.erasedBound?_of_splitGeneric {p : TypeParameter} {bound : String}
    {head : List Char} {arguments : Option (List Char)} (hp : p.bounds = [bound])
    (hg : splitGeneric (trim bound.toList) = .ok (head, arguments)) :
    p.erasedBound? = some (.parse head) := by
  unfold erasedBound?
  rw [hp]
  dsimp only
  rw [hg]

theorem TypeParameter.erasedBound?_of_plain {p : TypeParameter} {bound : List Char}
    (hp : p.bounds = [String.ofList bound]) (h : PlainName bound) :
    p.erasedBound? = some (.named (String.ofList bound)) := by
  unfold erasedBound?
  rw [hp]
  dsimp only
  rw [String.toList_ofList, trim_of_not_blank h.notBlank,
    splitGeneric_of_plain h.noOpen h.noClose]
  exact congrArg some (TypeExpr.parse_of_plain h)

namespace Scope

/-- The expression mentions the name, or a type parameter whose bound reaches it. -/
inductive Reaches (s : Scope) : TypeExpr → String → Prop
  | mention {e : TypeExpr} {name : String} (h : e.Mentions name) : Reaches s e name
  | bound {e bound : TypeExpr} {name reached : String} {p : TypeParameter} (h : e.Mentions name)
    (hp : s.parameter? name = some p) (hb : p.erasedBound? = some bound)
    (hr : Reaches s bound reached) : Reaches s e reached

theorem Reaches.mono {s : Scope} {e e' : TypeExpr} {reached : String} (h : s.Reaches e reached)
    (hm : ∀ name, e.Mentions name → e'.Mentions name) : s.Reaches e' reached := by
  cases h with
  | mention h => exact .mention (hm _ h)
  | bound h hp hb hr => exact .bound (hm _ h) hp hb hr

theorem reaches_named_iff {s : Scope} {name reached : String} :
    s.Reaches (.named name) reached ↔ reached = name ∨ ∃ p bound, s.parameter? name = some p ∧
      p.erasedBound? = some bound ∧ s.Reaches bound reached := by
  constructor
  · rintro (⟨⟨⟩⟩ | ⟨⟨⟩, hp, hb, hr⟩)
    · exact .inl rfl
    · exact .inr ⟨_, _, hp, hb, hr⟩
  · rintro (rfl | ⟨p, bound, hp, hb, hr⟩)
    · exact .mention (.named reached)
    · exact .bound (.named name) hp hb hr

/-! ## Equations -/

theorem evaluateName_eq (s : Scope) (visiting : List String) (name : String) :
    s.evaluateName visiting name =
      if name = "" ∨ name.toList.any isBlank then .error (.unresolvable name)
      else
        match s.parameter? name with
        | none => (s.classOf name.toList).map .ofBinaryName
        | some p =>
          match p.bounds with
          | [] => .ok (.typeVariable name .object)
          | [bound] =>
            if name ∈ visiting then .error (.unresolvable name)
            else
              match splitGeneric (trim bound.toList) with
              | .error cause => .error (.malformed cause)
              | .ok (head, _) =>
                (s.evaluate (name :: visiting) (.parse head)).map (.typeVariable name)
          | bounds => .error (.severalBounds name bounds) := by
  rw [evaluateName]
  split
  · rfl
  · split
    · next hp => rw [hp]
    · next hp => rw [hp]; rfl

/-- A parameter with a bound has a meaning if the bound has one that does not lead back to it. -/
theorem evaluateName_of_erasedBound {s : Scope} {name : String} {p : TypeParameter}
    (hp : s.parameter? name = some p) {bound : TypeExpr} (hb : p.erasedBound? = some bound)
    (visiting : List String) :
    s.evaluateName visiting name =
      if (name = "" ∨ name.toList.any isBlank) ∨ name ∈ visiting then .error (.unresolvable name)
      else (s.evaluate (name :: visiting) bound).map (.typeVariable name) := by
  unfold TypeParameter.erasedBound? at hb
  split at hb
  · next text hbounds =>
    split at hb
    · next head arguments hg =>
      cases hb
      rw [evaluateName_eq, hp]
      dsimp only
      rw [hbounds]
      dsimp only
      simp only [hg, ite_or]
    · cases hb
  · cases hb

end Scope

/-- The argument with its type read, if it has one. -/
def Argument.traverse {ε α β : Type} (f : α → Except ε β) : Argument α → Except ε (Argument β)
  | any => .ok any
  | just type => (f type).map just
  | subtypesOf type => (f type).map subtypesOf
  | supertypesOf type => (f type).map supertypesOf

namespace Argument

variable {ε α β : Type} {f g : α → Except ε β} {argument : Argument α}

theorem traverse_congr (h : ∀ type, argument.type? = some type → f type = g type) :
    argument.traverse f = argument.traverse g := by
  cases argument with
  | any => rfl
  | just type => exact congrArg (Except.map just) (h type rfl)
  | subtypesOf type => exact congrArg (Except.map subtypesOf) (h type rfl)
  | supertypesOf type => exact congrArg (Except.map supertypesOf) (h type rfl)

theorem exists_of_traverse {result : Argument β} (h : argument.traverse f = .ok result) {type : α}
    (ht : argument.type? = some type) : ∃ u, f type = .ok u := by
  have hmap : ∀ {c : β → Argument β}, (f type).map c = .ok result → ∃ u, f type = .ok u := by
    intro c hc
    cases hf : f type with
    | error e => rw [hf] at hc; cases hc
    | ok u => exact ⟨u, rfl⟩
  cases argument <;> cases ht <;> exact hmap h

end Argument

namespace Scope

theorem evaluate_applied (s : Scope) (visiting : List String) (text head : String)
    (arguments : List (Argument TypeExpr)) :
    s.evaluate visiting (.applied text head arguments) =
      applyHead text (s.evaluateName visiting head)
        (untilError (arguments.map (Argument.traverse (s.evaluate visiting)))) := by
  rw [evaluate, map_attach_eq (g := Argument.traverse (s.evaluate visiting))]
  rintro ⟨argument, _⟩
  cases argument <;> rfl

/-! ## Scopes that agree -/

-- By the recursion of evaluation in `s`: scopes that find the same parameters take the same steps.
mutual

/-- Scopes that find the same classes, and the same parameters for the names that are reached, give
the same meaning. -/
theorem evaluate_congr {s s' : Scope} (hc : s'.classOf = s.classOf) {visiting : List String}
    {e : TypeExpr} (h : ∀ name, s.Reaches e name → s'.parameter? name = s.parameter? name) :
    s'.evaluate visiting e = s.evaluate visiting e := by
  match e, h with
  | .primitive p, _ => rw [evaluate, evaluate]
  | .malformed cause, _ => rw [evaluate, evaluate]
  | .array element, h =>
    rw [evaluate, evaluate, evaluate_congr hc fun name hr => h name (hr.mono fun _ => .array)]
  | .named name, h =>
    rw [evaluate, evaluate]
    exact evaluateName_congr hc h
  | .applied text head arguments, h =>
    have hhead : s'.evaluateName visiting head = s.evaluateName visiting head :=
      evaluateName_congr hc fun name hr => h name (hr.mono fun _ hm => by
        cases hm
        exact .head text head arguments)
    have hargument : ∀ argument ∈ arguments, argument.traverse (s'.evaluate visiting) =
        argument.traverse (s.evaluate visiting) := fun argument hm =>
      Argument.traverse_congr fun type ht => evaluate_congr hc fun name hr =>
        h name (hr.mono fun _ => .argument hm ht)
    rw [evaluate_applied, evaluate_applied, hhead, List.map_congr_left hargument]
termination_by (s.unvisited visiting, sizeOf e)
decreasing_by
  · exact Prod.Lex.right _ (by simp only [TypeExpr.array.sizeOf_spec]; omega)
  · exact Prod.Lex.right _ (by simp only [TypeExpr.named.sizeOf_spec]; omega)
  · exact Prod.Lex.right _ (by simp only [TypeExpr.applied.sizeOf_spec]; omega)
  · exact Prod.Lex.right _ (sizeOf_lt_applied ‹_› ‹_›)

theorem evaluateName_congr {s s' : Scope} (hc : s'.classOf = s.classOf) {visiting : List String}
    {name : String}
    (h : ∀ reached, s.Reaches (.named name) reached →
      s'.parameter? reached = s.parameter? reached) :
    s'.evaluateName visiting name = s.evaluateName visiting name := by
  rw [evaluateName_eq, evaluateName_eq, h name (.mention (.named name)), hc]
  split
  · rfl
  · split
    · rfl
    · next p hp =>
      split
      · rfl
      · next bound hb =>
        split
        · rfl
        · next hv =>
          split
          · rfl
          · next head arguments hg =>
            -- All that the bound reaches is reached through the name.
            rw [evaluate_congr hc fun reached hr => h reached
              (.bound (.named name) hp (TypeParameter.erasedBound?_of_splitGeneric hb hg) hr)]
      · rfl
termination_by (s.unvisited visiting, 0)
decreasing_by exact Prod.Lex.left _ _ (unvisited_cons_lt ‹_› ‹_›)

end

/-! ## Names that resolve -/

/-- What has a meaning gives every name that it mentions one. -/
theorem exists_of_mentions {s : Scope} {visiting : List String} {e : TypeExpr} {name : String}
    (hm : e.Mentions name) {t : JavaType} (h : s.evaluate visiting e = .ok t) :
    ∃ u, s.evaluateName visiting name = .ok u := by
  induction hm generalizing t with
  | named name =>
    rw [evaluate] at h
    exact ⟨t, h⟩
  | @array element name hm ih =>
    rw [evaluate] at h
    cases he : s.evaluate visiting element with
    | error cause => rw [he] at h; cases h
    | ok u => exact ih he
  | head text head arguments =>
    rw [evaluate_applied] at h
    obtain ⟨u, hu, -⟩ := applyHead_eq_ok.mp h
    exact ⟨u, hu⟩
  | @argument text head name arguments argument type hm ht _ ih =>
    rw [evaluate_applied] at h
    obtain ⟨-, -, herror, -⟩ := applyHead_eq_ok.mp h
    have hok : argument.traverse (s.evaluate visiting) ∈
        arguments.map (Argument.traverse (s.evaluate visiting)) := List.mem_map_of_mem hm
    rw [untilError_eq_iff.mp (Prod.ext rfl herror)] at hok
    obtain ⟨result, -, hresult⟩ := List.mem_map.mp hok
    obtain ⟨u, hu⟩ := Argument.exists_of_traverse hresult.symm ht
    exact ih hu

theorem evaluateName_severalBounds {s : Scope} {name : String} {p : TypeParameter}
    (hp : s.parameter? name = some p) (hb : 1 < p.bounds.length) (visiting : List String)
    (t : JavaType) : s.evaluateName visiting name ≠ .ok t := by
  intro h
  rw [evaluateName_eq] at h
  split at h
  · cases h
  · rw [hp] at h
    dsimp only at h
    split at h
    · next hnil => simp [hnil] at hb
    · next bound hone => simp [hone] at hb
    · cases h

/-! ## Entering a scope -/

theorem parameter?_enter_of_ne {s : Scope} {inner : List TypeParameter} {name : String}
    (h : ∀ p ∈ inner, p.name ≠ name) : (s.enter inner).parameter? name = s.parameter? name := by
  have hinner : inner.find? (fun p => p.name = name) = none :=
    List.find?_eq_none.mpr fun p hp => by simpa using h p hp
  unfold parameter? enter
  rw [List.find?_append, hinner]
  rfl

theorem parameter?_enter_self (s : Scope) (p : TypeParameter) :
    (s.enter [p]).parameter? p.name = some p :=
  List.find?_cons_of_pos (by simp)

section ClassPath

variable {s s' : Scope} (h : s'.classPath = s.classPath)
include h

theorem outermostClass?_congr (package parts : List (List Char)) :
    s'.outermostClass? package parts = s.outermostClass? package parts := by
  induction parts generalizing package with
  | nil => rfl
  | cons part parts ih => rw [outermostClass?, outermostClass?, ih, knows, knows, h]

/-- Qualified names are read with the class path alone. -/
theorem binaryNameOf_congr (qualified : List Char) :
    s'.binaryNameOf qualified = s.binaryNameOf qualified := by
  unfold binaryNameOf
  rw [outermostClass?_congr h]

theorem importedClass_congr (name : List Char) (found : ImportMatch) :
    s'.importedClass name found = s.importedClass name found := by
  cases found <;> simp only [importedClass, binaryNameOf_congr h]

end ClassPath

/-- Type parameters have no part in finding classes. -/
theorem classOf_enter (s : Scope) (inner : List TypeParameter) :
    (s.enter inner).classOf = s.classOf := by
  have hpath : (s.enter inner).classPath = s.classPath := rfl
  funext name
  unfold classOf
  simp only [binaryNameOf_congr hpath, importedClass_congr hpath]
  rfl

/-- A parameter that cannot be resolved spoils all that reach its name. -/
theorem evaluate_enter_ne_ok {s : Scope} {p : TypeParameter} (hb : 1 < p.bounds.length)
    {e : TypeExpr} (h : s.Reaches e p.name) (visiting : List String) (t : JavaType) :
    (s.enter [p]).evaluate visiting e ≠ .ok t := by
  have hspoiled := evaluateName_severalBounds (parameter?_enter_self s p) hb
  generalize hname : p.name = reached at h
  -- Along the bounds, up to the name itself: there evaluation stops, whatever was visited before.
  induction h generalizing visiting t with
  | mention hm =>
    intro he
    obtain ⟨u, hu⟩ := exists_of_mentions hm he
    exact hspoiled visiting u (hname ▸ hu)
  | @bound e bound name reached q hm hq hbound _ ih =>
    intro he
    obtain ⟨u, hu⟩ := exists_of_mentions hm he
    by_cases hn : p.name = name
    · exact hspoiled visiting u (hn ▸ hu)
    · have hq' : (s.enter [p]).parameter? name = some q := by
        rw [parameter?_enter_of_ne (by simpa using hn), hq]
      rw [evaluateName_of_erasedBound hq' hbound] at hu
      split at hu
      · cases hu
      · cases hv : (s.enter [p]).evaluate (name :: visiting) bound with
        | error cause => rw [hv] at hu; cases hu
        | ok v => exact ih _ v hname hv

/-- Inner parameters leave a text its meaning if it reaches none of their names, and only then: any
name that it reaches can be declared such that the text loses its meaning. -/
theorem resolve_enter_of_not_reaches (s : Scope) (text : String) :
    (∀ inner : List TypeParameter, (∀ p ∈ inner, ¬s.Reaches (.ofString text) p.name) →
        (s.enter inner).resolve text = s.resolve text) ∧
      ∀ name, s.Reaches (.ofString text) name →
        ∃ p : TypeParameter, p.name = name ∧ ∀ t, (s.enter [p]).resolve text ≠ .ok t := by
  constructor
  · intro inner h
    refine evaluate_congr (classOf_enter s inner) fun name hr => ?_
    exact parameter?_enter_of_ne fun p hp hn => h p hp (hn ▸ hr)
  · intro name hr
    exact ⟨⟨name, ["", ""]⟩, rfl, evaluate_enter_ne_ok (by simp) hr []⟩

/-! ## A bound that is shadowed -/

/-- The class of numbers. -/
def numberName : BinaryName := ⟨"java/lang/Number", by decide⟩

/-- A scope with a parameter that bounds another. -/
def numeric : Scope :=
  ⟨"me", [], [⟨"T", ["java.lang.Number"]⟩, ⟨"B", ["T"]⟩], fun _ => false, {}⟩

theorem plainName_numeric :
    PlainName "B".toList ∧ PlainName "T".toList ∧ PlainName "java.lang.Number".toList := by
  refine ⟨?_, ?_, ?_⟩ <;>
    exact ⟨by decide, notBlank_of_all (by decide), by decide, by decide, by decide, by decide⟩

theorem ofString_boundedByT : TypeExpr.ofString "B" = .named "B" :=
  TypeExpr.ofString_of_plain plainName_numeric.1

theorem erasedBound?_boundedByT : TypeParameter.erasedBound? ⟨"B", ["T"]⟩ = some (.named "T") :=
  TypeParameter.erasedBound?_of_plain rfl plainName_numeric.2.1

theorem erasedBound?_number : TypeParameter.erasedBound? ⟨"T", ["java.lang.Number"]⟩ =
    some (.named "java.lang.Number") :=
  TypeParameter.erasedBound?_of_plain rfl plainName_numeric.2.2

theorem resolve_boundedByT {s : Scope} (hp : s.parameter? "B" = some ⟨"B", ["T"]⟩) :
    s.resolve "B" = (s.evaluateName ["B"] "T").map (.typeVariable "B") := by
  unfold resolve
  rw [ofString_boundedByT, evaluate, evaluateName_of_erasedBound hp erasedBound?_boundedByT,
    if_neg (by decide), evaluate]

/-- The bound of `B` is another type once its name means another parameter, though `B` is none of
those that were declared. -/
theorem resolve_enter_shadowedBound :
    ¬(TypeExpr.ofString "B").Mentions "T" ∧
      numeric.resolve "B" =
        .ok (.typeVariable "B" (.typeVariable "T" (.ofBinaryName numberName))) ∧
      (numeric.enter [⟨"T", []⟩]).resolve "B" =
        .ok (.typeVariable "B" (.typeVariable "T" .object)) ∧
      (numeric.enter [⟨"T", []⟩]).resolve "B" ≠ numeric.resolve "B" := by
  have houter : numeric.resolve "B" =
      .ok (.typeVariable "B" (.typeVariable "T" (.ofBinaryName numberName))) := by
    have hc : numeric.classOf "java.lang.Number".toList = .ok numberName := by decide
    have hn : numeric.parameter? "java.lang.Number" = none := by decide
    rw [resolve_boundedByT rfl, evaluateName_of_erasedBound rfl erasedBound?_number,
      if_neg (by decide), evaluate, evaluateName_eq, if_neg (by decide), hn]
    dsimp only
    rw [hc]
    rfl
  have hinner : (numeric.enter [⟨"T", []⟩]).resolve "B" =
      .ok (.typeVariable "B" (.typeVariable "T" .object)) := by
    rw [resolve_boundedByT rfl, evaluateName_eq, if_neg (by decide)]
    rfl
  refine ⟨?_, houter, hinner, ?_⟩
  · rw [ofString_boundedByT, TypeExpr.mentions_named_iff]
    decide
  · rw [houter, hinner]
    decide

/-- `B` reaches its own name, that of its bound, and that of the class. -/
theorem reaches_numeric {reached : String} (h : numeric.Reaches (.ofString "B") reached) :
    reached ∈ ["B", "T", "java.lang.Number"] := by
  rw [ofString_boundedByT, reaches_named_iff] at h
  obtain rfl | ⟨_, _, ⟨⟩, hb, h⟩ := h
  · decide
  rw [erasedBound?_boundedByT] at hb
  cases hb
  rw [reaches_named_iff] at h
  obtain rfl | ⟨_, _, ⟨⟩, hb, h⟩ := h
  · decide
  rw [erasedBound?_number] at hb
  cases hb
  rw [reaches_named_iff] at h
  obtain rfl | ⟨_, _, ⟨⟩, -⟩ := h
  decide

/-- A parameter of another name leaves `B` as it is, and one with the name of its bound need not. -/
theorem resolve_enter_numeric :
    (numeric.enter [⟨"U", []⟩]).resolve "B" = numeric.resolve "B" ∧
      ∃ p : TypeParameter, p.name = "T" ∧ ∀ t, (numeric.enter [p]).resolve "B" ≠ .ok t := by
  obtain ⟨hsame, hspoiled⟩ := resolve_enter_of_not_reaches numeric "B"
  refine ⟨hsame _ fun p hp hr => ?_, hspoiled "T" ?_⟩
  · cases List.mem_singleton.mp hp
    exact absurd (reaches_numeric hr) (by decide)
  · rw [ofString_boundedByT]
    exact .bound (.named "B") rfl erasedBound?_boundedByT (.mention (.named "T"))

end Scope
end JvmWeave
