import Mathlib.Logic.Relation
import JvmWeave.Proofs.ResolutionDepth
import JvmWeave.Proofs.TypeTree

/-!
# Chains of bounds

A type parameter with one bound has the erasure of the name that the bound is written with, and that
name may be a parameter again.  Where every bound is written as a name with or without arguments,
the parameters form chains, and how the chain of a parameter ends decides what the parameter means.

A step of a chain is `BoundedBy`, a relation between names that the declarations give.  It leads to
at most one name, so a chain either ends or goes on forever.  It ends at a name that is no
parameter, or at a parameter with no bound or with several of them.  As there are only so many
parameters, a chain that goes on forever comes back to one of its names.

Resolution follows the same steps and keeps the names that it comes through, in order to stop when
one of them comes again.  So what a name means depends on where it is asked for, and the lemmas are
about `headType` under a set of visited names.  On a chain that ends no name comes again, hence the
visited ones never matter (`headType_of_chain`); on one that does not end they are what stops it
(`headType_of_endless`).

Arguments of a bound are cut off before its name is looked up, so they lead nowhere, not even where
a bound mentions its own parameter in them.
-/

set_option autoImplicit false

namespace JvmWeave

open Text Relation

/-! ## Bounds as they are written -/

/-- A name that a bound can be written with, which may be a keyword. -/
structure BoundName (name : List Char) : Prop where
  ne_nil : name ≠ []
  notBlank : ∀ c ∈ name, isBlank c = false
  noOpen : '<' ∉ name
  noClose : '>' ∉ name
  noArray : stripSuffix? ['[', ']'] name = none

theorem PlainName.boundName {name : List Char} (h : PlainName name) : BoundName name :=
  ⟨h.ne_nil, h.notBlank, h.noOpen, h.noClose, h.noArray⟩

/-- The text is the name, or the name in front of arguments in brackets that match. -/
inductive WrittenBound (name : List Char) : List Char → Prop
  | bare (h : BoundName name) (before after : Gap) :
    WrittenBound name (before.text ++ name ++ after.text)
  | applied (h : BoundName name) {inside : List Char} (hi : Balanced inside)
    (before gap after : Gap) :
    WrittenBound name
      (before.text ++ (name ++ gap.text ++ '<' :: (inside ++ ['>'])) ++ after.text)

namespace WrittenBound

variable {name text : List Char}

theorem boundName (h : WrittenBound name text) : BoundName name := by
  cases h with
  | bare h => exact h
  | applied h => exact h

/-- The arguments are cut off. -/
theorem splitGeneric_eq (h : WrittenBound name text) :
    ∃ arguments, splitGeneric (trim text) = .ok (name, arguments) := by
  have hsolid : Solid name := .of_notBlank h.boundName.ne_nil h.boundName.notBlank
  cases h with
  | bare h before after =>
    refine ⟨none, ?_⟩
    rw [hsolid.trim_gaps, splitGeneric_of_plain h.noOpen h.noClose]
  | @applied h inside hi before gap after =>
    have hopen : '<' ∉ name ++ gap.text := by
      simp [h.noOpen, gap.not_mem (show isBlank '<' = false by decide)]
    have hbrackets : Solid (name ++ gap.text ++ '<' :: (inside ++ ['>'])) := by
      simpa using hsolid.append_right (show isBlank '>' = false by decide)
        (gap.text ++ '<' :: inside)
    refine ⟨some inside, ?_⟩
    rw [hbrackets.trim_gaps, splitGeneric_some hopen hi, hsolid.trimEnd_gap]

end WrittenBound

namespace Scope

variable {s : Scope} {name bound : String}

/-- All type parameters are plain names, and all bounds are names with or without arguments. -/
structure WritesBounds (s : Scope) : Prop where
  names : ∀ p ∈ s.typeParameters, PlainName p.name.toList
  bounds : ∀ p ∈ s.typeParameters, ∀ text ∈ p.bounds, ∃ bound, WrittenBound bound text.toList

/-- The first declaration of the name has a single bound, and that is written with this name. -/
def BoundedBy (s : Scope) (name bound : String) : Prop :=
  ∃ p text, s.parameter? name = some p ∧ p.bounds = [text] ∧
    WrittenBound bound.toList text.toList

theorem BoundedBy.exists_parameter? (h : s.BoundedBy name bound) :
    ∃ p, s.parameter? name = some p := by
  obtain ⟨p, _, hp, _⟩ := h
  exact ⟨p, hp⟩

theorem BoundedBy.boundName (h : s.BoundedBy name bound) : BoundName bound.toList := by
  obtain ⟨_, _, _, _, hw⟩ := h
  exact hw.boundName

theorem boundedBy_rightUnique (s : Scope) : Relator.RightUnique s.BoundedBy := by
  intro name a b ha hb
  obtain ⟨p, text, hp, hbounds, hw⟩ := ha
  obtain ⟨q, other, hq, hothers, hw'⟩ := hb
  cases hp.symm.trans hq
  cases hbounds.symm.trans hothers
  obtain ⟨_, hsplit⟩ := hw.splitGeneric_eq
  obtain ⟨_, hsplit'⟩ := hw'.splitGeneric_eq
  have hcut := Except.ok.inj (hsplit.symm.trans hsplit')
  exact String.toList_injective (congrArg Prod.fst hcut)

theorem WritesBounds.plainName (hs : s.WritesBounds) {p : TypeParameter}
    (hp : s.parameter? name = some p) : PlainName name.toList := by
  have hname : p.name = name := by simpa using List.find?_some hp
  exact hname ▸ hs.names p (List.mem_of_find?_eq_some hp)

/-! ## One step -/

/-- What the name of a bound means, where the parameters in `visiting` are being resolved. -/
def headType (s : Scope) (visiting : List String) (name : String) :
    Except ResolveError JavaType :=
  s.evaluate visiting (.parse name.toList)

theorem resolve_of_boundName (h : BoundName name.toList) : s.resolve name = s.headType [] name := by
  unfold resolve headType TypeExpr.ofString
  rw [trim_of_not_blank h.notBlank]

theorem headType_of_plain (h : PlainName name.toList) (visiting : List String) :
    s.headType visiting name = s.evaluateName visiting name := by
  unfold headType
  rw [TypeExpr.parse_of_plain h, String.ofList_toList, evaluate]

theorem evaluable_of_plain (h : PlainName name.toList) :
    ¬(name = "" ∨ name.toList.any isBlank = true) := by
  simpa using evaluable_of_notBlank h.ne_nil h.notBlank

theorem WritesBounds.headType_of_boundedBy (hs : s.WritesBounds) (h : s.BoundedBy name bound)
    (visiting : List String) :
    s.headType visiting name =
      if name ∈ visiting then .error (.unresolvable name)
      else (s.headType (name :: visiting) bound).map (.typeVariable name) := by
  obtain ⟨p, text, hp, hbounds, hw⟩ := h
  obtain ⟨arguments, hsplit⟩ := hw.splitGeneric_eq
  have hplain := hs.plainName hp
  rw [headType_of_plain hplain, evaluateName_of_erasedBound hp
    (TypeParameter.erasedBound?_of_splitGeneric hbounds hsplit)]
  simp only [evaluable_of_plain hplain, false_or]
  rfl

/-! ## Ends of chains -/

/-- No name bounds this one. -/
def EndsChain (s : Scope) (name : String) : Prop :=
  ∀ bound, ¬s.BoundedBy name bound

theorem WritesBounds.exists_boundedBy (hs : s.WritesBounds) {p : TypeParameter} {text : String}
    (hp : s.parameter? name = some p) (hb : p.bounds = [text]) :
    ∃ bound, s.BoundedBy name bound := by
  obtain ⟨bound, hw⟩ := hs.bounds p (List.mem_of_find?_eq_some hp) text (by simp [hb])
  exact ⟨String.ofList bound, p, text, hp, hb, by rwa [String.toList_ofList]⟩

theorem endsChain_of_bounds {p : TypeParameter} (hp : s.parameter? name = some p)
    (hb : p.bounds.length ≠ 1) : s.EndsChain name := by
  rintro bound ⟨q, text, hq, hbounds, -⟩
  cases hp.symm.trans hq
  exact hb (by rw [hbounds]; rfl)

theorem endsChain_of_noParameter (hp : s.parameter? name = none) : s.EndsChain name := by
  intro bound h
  obtain ⟨q, hq⟩ := h.exists_parameter?
  cases hp.symm.trans hq

theorem WritesBounds.endsChain_iff (hs : s.WritesBounds) :
    s.EndsChain name ↔
      s.parameter? name = none ∨ ∃ p, s.parameter? name = some p ∧ p.bounds.length ≠ 1 := by
  constructor
  · intro hend
    cases hp : s.parameter? name with
    | none => exact .inl rfl
    | some p =>
      refine .inr ⟨p, rfl, fun hone => ?_⟩
      obtain ⟨text, hb⟩ := List.length_eq_one_iff.mp hone
      obtain ⟨bound, h⟩ := hs.exists_boundedBy hp hb
      exact hend bound h
  · rintro (hp | ⟨p, hp, hb⟩)
    · exact endsChain_of_noParameter hp
    · exact endsChain_of_bounds hp hb

theorem headType_of_bounds {p : TypeParameter} (h : PlainName name.toList)
    (hp : s.parameter? name = some p) (hb : p.bounds.length ≠ 1) (visiting : List String) :
    s.headType visiting name =
      if p.bounds = [] then .ok (.typeVariable name .object)
      else .error (.severalBounds name p.bounds) := by
  rw [headType_of_plain h, evaluateName_eq, if_neg (evaluable_of_plain h), hp]
  dsimp only
  split
  · next hnil => rw [if_pos hnil]
  · next hone => simp [hone] at hb
  · next hnil _ => rw [if_neg hnil]

/-- At the end of a chain it does not matter how it was reached. -/
theorem WritesBounds.headType_of_endsChain (hs : s.WritesBounds) (h : BoundName name.toList)
    (hend : s.EndsChain name) (visiting : List String) :
    s.headType visiting name = s.headType [] name := by
  cases hk : Primitive.ofKeyword? (String.ofList name.toList) with
  | some p =>
    unfold headType
    rw [TypeExpr.parse_keyword h.noArray hk, evaluate, evaluate]
  | none =>
    have hplain : PlainName name.toList :=
      ⟨h.ne_nil, h.notBlank, h.noOpen, h.noClose, h.noArray, hk⟩
    rcases hs.endsChain_iff.mp hend with hp | ⟨p, hp, hb⟩
    · rw [headType_of_plain hplain, headType_of_plain hplain, evaluateName_eq, evaluateName_eq, hp]
    · rw [headType_of_bounds hplain hp hb, headType_of_bounds hplain hp hb]

/-! ## Chains that end -/

variable {last : String}

theorem not_repeats_of_endsChain (h : ReflTransGen s.BoundedBy name last)
    (hend : s.EndsChain last) : ¬TransGen s.BoundedBy name name := by
  induction h using ReflTransGen.head_induction_on with
  | refl =>
    intro hcycle
    obtain ⟨bound, hb, -⟩ := TransGen.head'_iff.mp hcycle
    exact hend bound hb
  | @head name bound hb _ ih =>
    intro hcycle
    obtain ⟨other, ho, hback⟩ := TransGen.head'_iff.mp hcycle
    cases boundedBy_rightUnique s hb ho
    exact ih (TransGen.tail' hback hb)

/-- Up to the variable that it is written for, the erasure of a name is that of the end of its
chain. -/
theorem WritesBounds.headType_of_chain (hs : s.WritesBounds)
    (h : ReflTransGen s.BoundedBy name last) (hend : s.EndsChain last) (hn : BoundName name.toList) {visiting : List String}
    (hv : ∀ x, ReflTransGen s.BoundedBy name x → x ∉ visiting) (written : String) :
    (s.headType visiting name).map (JavaType.typeVariable written) =
      (s.headType [] last).map (JavaType.typeVariable written) := by
  induction h using ReflTransGen.head_induction_on generalizing visiting with
  | refl => rw [hs.headType_of_endsChain hn hend]
  | @head name bound hb hrest ih =>
    have hvb : ∀ x, ReflTransGen s.BoundedBy bound x → x ∉ name :: visiting := by
      intro x hx hmem
      rcases List.mem_cons.mp hmem with rfl | hmem
      · exact not_repeats_of_endsChain (.head hb hrest) hend (TransGen.head' hb hx)
      · exact hv x (.head hb hx) hmem
    rw [hs.headType_of_boundedBy hb, if_neg (hv name .refl), ← ih hb.boundName hvb]
    -- A variable that erases to a variable has the erasure of that one.
    cases s.headType (name :: visiting) bound <;> rfl

/-! ## Chains that do not end -/

/-- A chain that goes on forever comes back to a name, and resolution stops there. -/
theorem WritesBounds.headType_of_endless (hs : s.WritesBounds) {name : String}
    (hall : ∀ x, ReflTransGen s.BoundedBy name x → ¬s.EndsChain x) {visiting : List String}
    (hv : ∀ v ∈ visiting, TransGen s.BoundedBy v name) :
    ∃ repeated, ReflTransGen s.BoundedBy name repeated ∧ TransGen s.BoundedBy repeated repeated ∧
      s.headType visiting name = .error (.unresolvable repeated) := by
  obtain ⟨bound, hb⟩ := not_forall_not.mp (hall name .refl)
  by_cases hmem : name ∈ visiting
  · refine ⟨name, .refl, hv name hmem, ?_⟩
    rw [hs.headType_of_boundedBy hb, if_pos hmem]
  · have hvb : ∀ v ∈ name :: visiting, TransGen s.BoundedBy v bound := by
      intro v hm
      rcases List.mem_cons.mp hm with rfl | hm
      · exact .single hb
      · exact (hv v hm).tail hb
    have hallb : ∀ x, ReflTransGen s.BoundedBy bound x → ¬s.EndsChain x :=
      fun x hx => hall x (.head hb hx)
    obtain ⟨p, hp⟩ := hb.exists_parameter?
    have hless := unvisited_cons_lt hp hmem
    obtain ⟨repeated, hreach, hcycle, he⟩ := hs.headType_of_endless hallb hvb
    refine ⟨repeated, .head hb hreach, hcycle, ?_⟩
    rw [hs.headType_of_boundedBy hb, if_neg hmem, he]
    rfl
termination_by s.unvisited visiting

theorem endless_of_repeats (h : ReflTransGen s.BoundedBy name last)
    (hcycle : TransGen s.BoundedBy last last) {x : String}
    (hx : ReflTransGen s.BoundedBy name x) : ¬s.EndsChain x := by
  intro hend
  rcases ReflTransGen.total_of_right_unique (boundedBy_rightUnique s) h hx with hlast | hback
  · exact not_repeats_of_endsChain hlast hend hcycle
  · rcases hback.cases_head with rfl | ⟨bound, hb, -⟩
    · exact not_repeats_of_endsChain .refl hend hcycle
    · exact hend bound hb

/-! ## Parameters -/

theorem WritesBounds.typeVariable_of_resolve (hs : s.WritesBounds) {p : TypeParameter}
    (hp : s.parameter? name = some p) {t : JavaType} (h : s.resolve name = .ok t) :
    ∃ bound, t = .typeVariable name bound := by
  have hplain := hs.plainName hp
  rw [resolve_of_boundName hplain.boundName, headType_of_plain hplain] at h
  obtain ⟨-, ⟨_, hnone, -⟩ | ⟨_, bound, -, ht⟩⟩ := evaluateName_eq_ok h
  · cases hp.symm.trans hnone
  · exact ⟨bound, ht⟩

theorem WritesBounds.resolve_of_chain (hs : s.WritesBounds) {p : TypeParameter}
    (hp : s.parameter? name = some p) (h : ReflTransGen s.BoundedBy name last)
    (hend : s.EndsChain last) :
    s.resolve name = (s.headType [] last).map (.typeVariable name) := by
  have hn := (hs.plainName hp).boundName
  rw [← hs.headType_of_chain h hend hn (fun _ _ => List.not_mem_nil) name,
    ← resolve_of_boundName hn]
  cases hr : s.resolve name with
  | error e => rfl
  | ok t =>
    obtain ⟨bound, rfl⟩ := hs.typeVariable_of_resolve hp hr
    rfl

theorem boundName_of_chain (hn : BoundName name.toList) (h : ReflTransGen s.BoundedBy name last) :
    BoundName last.toList := by
  induction h with
  | refl => exact hn
  | tail _ hb => exact hb.boundName

theorem exists_parameter?_of_mem (h : name ∈ s.typeParameters.map (·.name)) :
    ∃ p, s.parameter? name = some p := by
  obtain ⟨p, hp, rfl⟩ := List.mem_map.mp h
  exact Option.isSome_iff_exists.mp (List.find?_isSome.mpr ⟨p, hp, by simp⟩)

/-- Resolution ends for every text, within a depth that the text and the declared bounds give.  For
a type parameter it follows the chain of bounds to its end or to the first name that comes again,
and there is no other way in which a chain can go on. -/
theorem resolve_follows_bounds (s : Scope) :
    (∀ (text : String) (limit : Nat), s.resolutionDepth text ≤ limit →
      s.resolveWithin limit [] (trim text.toList) = some (s.resolve text)) ∧
    (s.WritesBounds → ∀ name ∈ s.typeParameters.map (·.name),
      (∀ last p, ReflTransGen s.BoundedBy name last → s.parameter? last = some p → p.bounds = [] →
        s.resolve name = .ok ⟨"Ljava/lang/Object;", some ("T" ++ name ++ ";")⟩) ∧
      (∀ last, ReflTransGen s.BoundedBy name last → s.parameter? last = none →
        s.resolve name = (s.resolve last).map fun t =>
          ⟨t.descriptor, some ("T" ++ name ++ ";")⟩) ∧
      (∀ last p, ReflTransGen s.BoundedBy name last → s.parameter? last = some p →
        1 < p.bounds.length → s.resolve name = .error (.severalBounds last p.bounds)) ∧
      (∀ last, ReflTransGen s.BoundedBy name last → TransGen s.BoundedBy last last →
        ∃ repeated, ReflTransGen s.BoundedBy name repeated ∧
          TransGen s.BoundedBy repeated repeated ∧
          s.resolve name = .error (.unresolvable repeated)) ∧
      (∃ last, ReflTransGen s.BoundedBy name last ∧
        (TransGen s.BoundedBy last last ∨ s.parameter? last = none ∨
          ∃ p, s.parameter? last = some p ∧ p.bounds.length ≠ 1)) ∧
      ∀ t, s.resolve name = .ok t → t.signature = some ("T" ++ name ++ ";")) := by
  refine ⟨fun text limit h => resolveWithin_resolve h, fun hs name hname => ?_⟩
  obtain ⟨p, hp⟩ := exists_parameter?_of_mem hname
  have hn := (hs.plainName hp).boundName
  have hendless (hall : ∀ x, ReflTransGen s.BoundedBy name x → ¬s.EndsChain x) :=
    hs.headType_of_endless hall (List.forall_mem_nil _)
  rw [← resolve_of_boundName hn] at hendless
  refine ⟨?_, ?_, ?_, ?_, ?_, ?_⟩
  · intro last q hlast hq hb
    have hone : q.bounds.length ≠ 1 := by simp [hb]
    rw [hs.resolve_of_chain hp hlast (endsChain_of_bounds hq hone),
      headType_of_bounds (hs.plainName hq) hq hone, if_pos hb]
    rfl
  · intro last hlast hnone
    rw [hs.resolve_of_chain hp hlast (endsChain_of_noParameter hnone),
      ← resolve_of_boundName (boundName_of_chain hn hlast)]
    rfl
  · intro last q hlast hq hb
    have hone : q.bounds.length ≠ 1 := Nat.ne_of_gt hb
    have hnil : q.bounds ≠ [] := List.length_pos_iff.mp (Nat.zero_lt_of_lt hb)
    rw [hs.resolve_of_chain hp hlast (endsChain_of_bounds hq hone),
      headType_of_bounds (hs.plainName hq) hq hone, if_neg hnil]
    rfl
  · intro last hlast hcycle
    exact hendless fun x hx => endless_of_repeats hlast hcycle hx
  · by_cases hall : ∀ x, ReflTransGen s.BoundedBy name x → ¬s.EndsChain x
    · obtain ⟨repeated, hreach, hcycle, -⟩ := hendless hall
      exact ⟨repeated, hreach, .inl hcycle⟩
    · push Not at hall
      obtain ⟨last, hlast, hend⟩ := hall
      exact ⟨last, hlast, .inr (hs.endsChain_iff.mp hend)⟩
  · intro t ht
    obtain ⟨bound, rfl⟩ := hs.typeVariable_of_resolve hp ht
    rfl

/-! ## Parameters that bound each other -/

/-- A scope with a bound on a bound in terms of itself, and with two bounds on each other. -/
def chained : Scope :=
  ⟨"me", [], [⟨"B", ["C"]⟩, ⟨"C", ["java.lang.Comparable<C>"]⟩, ⟨"T", ["U"]⟩, ⟨"U", ["T"]⟩],
    fun _ => false, {}⟩

def chainedNames : List String := ["B", "C", "T", "U", "java.lang.Comparable"]

theorem plainName_chained : ∀ name ∈ chainedNames, PlainName name.toList := by
  simp only [chainedNames, List.forall_mem_cons]
  refine ⟨?_, ?_, ?_, ?_, ?_, List.forall_mem_nil _⟩ <;>
    exact ⟨by decide, notBlank_of_all (by decide), by decide, by decide, by decide, by decide⟩

theorem writtenBound_chained :
    (∀ name ∈ chainedNames, WrittenBound name.toList name.toList) ∧
      WrittenBound "java.lang.Comparable".toList "java.lang.Comparable<C>".toList := by
  let empty : Gap := ⟨[], List.forall_mem_nil _⟩
  constructor
  · intro name hname
    have hplain := plainName_chained name hname
    simpa [empty] using WrittenBound.bare hplain.boundName empty empty
  · have hplain := plainName_chained "java.lang.Comparable" (by simp [chainedNames])
    have hinside : Balanced ['C'] := .of_not_mem (by decide) (by decide)
    exact .applied hplain.boundName hinside empty empty empty

theorem writesBounds_chained : chained.WritesBounds where
  names := by
    simp only [chained, List.forall_mem_cons]
    refine ⟨?_, ?_, ?_, ?_, List.forall_mem_nil _⟩ <;>
      exact plainName_chained _ (by simp [chainedNames])
  bounds := by
    obtain ⟨hbare, happlied⟩ := writtenBound_chained
    simp only [chained, List.forall_mem_cons]
    refine ⟨⟨⟨_, hbare "C" ?_⟩, List.forall_mem_nil _⟩, ⟨⟨_, happlied⟩, List.forall_mem_nil _⟩,
      ⟨⟨_, hbare "U" ?_⟩, List.forall_mem_nil _⟩, ⟨⟨_, hbare "T" ?_⟩, List.forall_mem_nil _⟩,
      List.forall_mem_nil _⟩ <;> simp [chainedNames]

theorem boundedBy_chained :
    chained.BoundedBy "B" "C" ∧ chained.BoundedBy "C" "java.lang.Comparable" ∧
      chained.BoundedBy "T" "U" ∧ chained.BoundedBy "U" "T" := by
  obtain ⟨hbare, happlied⟩ := writtenBound_chained
  refine ⟨⟨_, _, rfl, rfl, hbare "C" ?_⟩, ⟨_, _, rfl, rfl, happlied⟩,
    ⟨_, _, rfl, rfl, hbare "U" ?_⟩, ⟨_, _, rfl, rfl, hbare "T" ?_⟩⟩ <;> simp [chainedNames]

theorem resolve_follows_bounds_chained :
    chained.WritesBounds ∧
      chained.resolve "B" = .ok ⟨"Ljava/lang/Comparable;", some "TB;"⟩ ∧
      ∃ repeated, chained.resolve "T" = .error (.unresolvable repeated) := by
  obtain ⟨hbc, hclass, htu, hut⟩ := boundedBy_chained
  have hresolve : chained.resolve "java.lang.Comparable" =
      .ok (.erased "Ljava/lang/Comparable;") := by
    have hplain := plainName_chained "java.lang.Comparable" (by simp [chainedNames])
    have hname : chained.classOf "java.lang.Comparable".toList =
        .ok ⟨"java/lang/Comparable", by decide⟩ := by decide
    have h := resolve_of_plain (s := chained) hplain rfl
    rw [hname] at h
    exact h
  obtain ⟨-, hchains⟩ := resolve_follows_bounds chained
  refine ⟨writesBounds_chained, ?_, ?_⟩
  · obtain ⟨-, hends, -⟩ := hchains writesBounds_chained "B" (by decide)
    rw [hends "java.lang.Comparable" (.head hbc (.single hclass)) rfl, hresolve]
    rfl
  · obtain ⟨-, -, -, hrepeats, -⟩ := hchains writesBounds_chained "T" (by decide)
    obtain ⟨repeated, -, -, he⟩ := hrepeats "T" .refl (.head htu (.single hut))
    exact ⟨repeated, he⟩

end Scope
end JvmWeave
