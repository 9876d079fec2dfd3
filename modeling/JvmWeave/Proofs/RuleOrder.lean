import JvmWeave.Proofs.NestedScope

/-!
# The order of the rules

A name can be explained by several rules at once.  Imports of single classes come first, in the
order in which they are written, then the package of the scope, then imports of whole packages in
their order, and behind all of these `java.lang`.  The first explanation decides, so that what is
added after it changes nothing, neither a type nor an error.
-/

set_option autoImplicit false

namespace JvmWeave

open Text

/-! ## Names in source -/

/-- The text is a name without arguments and no keyword.  There may be blanks around it. -/
structure ReadAsName (text : String) (name : List Char) : Prop where
  trim_eq : trim text.toList = name
  noOpen : '<' ∉ name
  noClose : '>' ∉ name
  noArray : stripSuffix? ['[', ']'] name = none
  noKeyword : Primitive.ofKeyword? (String.ofList name) = none

theorem ReadAsName.resolve_eq {text : String} {name : List Char} (h : ReadAsName text name)
    (s : Scope) : s.resolve text = s.evaluateName [] (String.ofList name) := by
  rw [← Scope.typeOf_named h.noArray h.noKeyword (splitGeneric_of_plain h.noOpen h.noClose),
    ← h.trim_eq]
  rfl

/-- A name that is no type parameter depends on the class it means alone. -/
theorem ReadAsName.resolve_congr {text : String} {name : List Char} (h : ReadAsName text name)
    {s s' : Scope} (hs : s'.typeParameters = s.typeParameters)
    (hp : s.parameter? (String.ofList name) = none) (hc : s'.classOf name = s.classOf name) :
    s'.resolve text = s.resolve text := by
  have hp' : s'.parameter? (String.ofList name) = none := by
    unfold Scope.parameter? at hp ⊢
    rw [hs, hp]
  rw [h.resolve_eq, h.resolve_eq, Scope.evaluateName_eq, Scope.evaluateName_eq, hp, hp']
  dsimp only
  rw [String.toList_ofList, hc]

/-! ## What explains a name -/

/-- The import of a class explains the name: it imports the name itself, or what ends with the name
or with the first of its parts. -/
def Import.Explains (i : Import) (name : List Char) : Prop :=
  i.wildcard = false ∧
    (i.name.toList = name ∨ '.' :: name <:+ i.name.toList ∨
      '.' ∈ name ∧ '.' :: name.takeWhile (· ≠ '.') <:+ i.name.toList)

theorem Import.not_explains_of_wildcard {i : Import} (h : i.wildcard = true) (name : List Char) :
    ¬i.Explains name := by
  rintro ⟨hclass, -⟩
  rw [h] at hclass
  cases hclass

namespace Scope

/-- The import of a package gives the name to a class that is known. -/
def Provides (s : Scope) (i : Import) (name : List Char) : Prop :=
  i.wildcard = true ∧ s.knows (qualify i.name.toList name) = true

instance (s : Scope) (i : Import) (name : List Char) : Decidable (s.Provides i name) :=
  inferInstanceAs (Decidable (_ ∧ _))

/-- The scope with further imports behind its own, under other settings. -/
def extend (s : Scope) (more : List Import) (settings : ScopeSettings) : Scope :=
  { s with imports := s.imports ++ more, settings := settings }

def withOnly (s : Scope) (i : Import) : Scope :=
  { s with imports := [i] }

variable {s s' : Scope} {name : List Char}

theorem isSome_matchImport?_iff {i : Import} :
    (matchImport? name i).isSome = true ↔ i.Explains name := by
  have hdot : name.dropWhile (· ≠ '.') = [] ↔ '.' ∉ name := by
    rw [List.dropWhile_eq_nil_iff]
    simp only [decide_eq_true_eq]
    exact ⟨fun h hm => h '.' hm rfl, fun h c hc e => h (e ▸ hc)⟩
  unfold matchImport? Import.Explains
  cases hw : i.wildcard with
  | true => simp
  | false =>
    dsimp only
    rw [if_neg Bool.false_ne_true]
    simp only [isSome_stripSuffix?_iff, true_and, ← or_assoc]
    by_cases hwhole : i.name.toList = name ∨ '.' :: name <:+ i.name.toList
    · simp [hwhole]
    · rw [if_neg hwhole, or_iff_right hwhole]
      cases hd : name.dropWhile (· ≠ '.') with
      | nil => simp [hdot.mp hd]
      | cons c nested =>
        have hmem : '.' ∈ name := by
          by_contra hm
          rw [hdot.mpr hm] at hd
          cases hd
        dsimp only
        split
        · next hfirst => exact iff_of_true rfl ⟨hmem, hfirst⟩
        · next hfirst => exact iff_of_false Bool.false_ne_true fun h => hfirst h.2

/-- What is found is the imported name, or a class nested in it. -/
theorem eq_of_matchImport? {i : Import} {found : ImportMatch} (h : matchImport? name i = some found) :
    found = .whole i.name.toList ∨ ∃ nested, found = .outer i.name.toList nested := by
  unfold matchImport? at h
  dsimp only at h
  split at h
  · cases h
  · split at h
    · exact .inl (Option.some.inj h).symm
    · split at h
      · cases h
      · split at h
        · exact .inr ⟨_, (Option.some.inj h).symm⟩
        · cases h

theorem exactImport?_eq_none_iff :
    s.exactImport? name = none ↔ ∀ i ∈ s.imports, ¬i.Explains name := by
  unfold exactImport?
  rw [List.findSome?_eq_none_iff]
  refine forall₂_congr fun i _ => ?_
  rw [← isSome_matchImport?_iff, Option.not_isSome_iff_eq_none]

/-- Of the imports that provide the name, the first that is written is taken. -/
theorem wildcardClass?_of_first {before after : List Import} {i : Import}
    (hs : s.imports = before ++ i :: after) (hi : s.Provides i name)
    (hbefore : ∀ j ∈ before, ¬s.Provides j name) :
    s.wildcardClass? name = some (qualify i.name.toList name) := by
  have hnone : ((before.filter (·.wildcard)).map fun j => qualify j.name.toList name).find?
      s.knows = none := by
    rw [List.find?_eq_none]
    intro qualified hq
    obtain ⟨j, hj, rfl⟩ := List.mem_map.mp hq
    obtain ⟨hj, hw⟩ := List.mem_filter.mp hj
    exact fun hk => hbefore j hj ⟨hw, hk⟩
  unfold wildcardClass? wildcards
  rw [hs, List.filter_append, List.filter_cons_of_pos hi.1, List.append_assoc, List.map_append,
    List.find?_append, hnone, Option.none_or, List.cons_append, List.map_cons,
    List.find?_cons_of_pos hi.2]

theorem exists_first_provider (h : ∃ i ∈ s.imports, s.Provides i name) :
    ∃ before i after, s.imports = before ++ i :: after ∧ s.Provides i name ∧
      ∀ j ∈ before, ¬s.Provides j name := by
  obtain ⟨j, hj, hp⟩ := h
  have hsome : (s.imports.find? fun i => s.Provides i name).isSome = true :=
    List.find?_isSome.mpr ⟨j, hj, decide_eq_true hp⟩
  obtain ⟨i, hi⟩ := Option.isSome_iff_exists.mp hsome
  obtain ⟨hi, before, after, hs, hbefore⟩ := List.find?_eq_some_iff_append.mp hi
  exact ⟨before, i, after, hs, of_decide_eq_true hi, fun j hj => by simpa using hbefore j hj⟩

/-! ## Rules -/

theorem classOf_of_exactImport? {found : ImportMatch} (h : s.exactImport? name = some found) :
    s.classOf name = s.importedClass name found := by
  unfold classOf
  rw [h]

/-- Of the imports that explain the name, the first that is written is taken. -/
theorem exactImport?_of_first {before after : List Import} {i : Import}
    (hs : s.imports = before ++ i :: after) (hi : i.Explains name)
    (hbefore : ∀ j ∈ before, ¬j.Explains name) :
    s.exactImport? name = matchImport? name i := by
  have hnone : before.findSome? (matchImport? name) = none := by
    rw [List.findSome?_eq_none_iff]
    intro j hj
    rw [← Option.not_isSome_iff_eq_none, isSome_matchImport?_iff]
    exact hbefore j hj
  obtain ⟨found, hfound⟩ := Option.isSome_iff_exists.mp (isSome_matchImport?_iff.mpr hi)
  unfold exactImport?
  rw [hs, List.findSome?_append, hnone, Option.none_or, List.findSome?_cons, hfound]

/-- A name that an import explains depends on how the imported name is read, and on nothing else. -/
theorem classOf_congr_of_import {before after : List Import} {i : Import}
    (hs : s.imports = before ++ i :: after) (hi : i.Explains name)
    (hbefore : ∀ j ∈ before, ¬j.Explains name) (hs' : s'.imports = s.imports)
    (hname : s'.binaryNameOf i.name.toList = s.binaryNameOf i.name.toList) :
    s'.classOf name = s.classOf name := by
  obtain ⟨found, hfound⟩ := Option.isSome_iff_exists.mp (isSome_matchImport?_iff.mpr hi)
  have hexact := (exactImport?_of_first hs hi hbefore).trans hfound
  have hexact' := (exactImport?_of_first (hs'.trans hs) hi hbefore).trans hfound
  rw [classOf_of_exactImport? hexact, classOf_of_exactImport? hexact']
  rcases eq_of_matchImport? hfound with rfl | ⟨nested, rfl⟩
  · exact hname
  · rw [importedClass, importedClass, hname]

theorem classOf_of_knows (he : ∀ i ∈ s.imports, ¬i.Explains name)
    (hk : s.knows (qualify s.package.toList name) = true) :
    s.classOf name = classNamed name (s.binaryInPackage name) := by
  unfold classOf
  rw [exactImport?_eq_none_iff.mpr he, hk]
  rfl

theorem classOf_of_first (he : ∀ i ∈ s.imports, ¬i.Explains name)
    (hk : s.knows (qualify s.package.toList name) = false) {before after : List Import} {i : Import}
    (hs : s.imports = before ++ i :: after) (hi : s.Provides i name)
    (hbefore : ∀ j ∈ before, ¬s.Provides j name) :
    s.classOf name = s.binaryNameOf (qualify i.name.toList name) := by
  unfold classOf
  rw [exactImport?_eq_none_iff.mpr he, hk, wildcardClass?_of_first hs hi hbefore]
  rfl

/-! ## Additions -/

theorem classOf_extend_of_explained (h : ∃ i ∈ s.imports, i.Explains name) (more : List Import)
    (settings : ScopeSettings) : (s.extend more settings).classOf name = s.classOf name := by
  obtain ⟨i, hi, hname⟩ := h
  have hsome : (s.exactImport? name).isSome = true :=
    List.findSome?_isSome_iff.mpr ⟨i, hi, isSome_matchImport?_iff.mpr hname⟩
  obtain ⟨found, hfound⟩ := Option.isSome_iff_exists.mp hsome
  have hextend : (s.extend more settings).exactImport? name = some found := by
    unfold exactImport? at hfound ⊢
    unfold extend
    rw [List.findSome?_append, hfound, Option.some_or]
  rw [classOf_of_exactImport? hextend, classOf_of_exactImport? hfound]
  apply importedClass_congr
  rfl

theorem not_explains_extend (h : ∀ i ∈ s.imports, ¬i.Explains name) {more : List Import}
    (hm : ∀ i ∈ more, i.wildcard = true) (settings : ScopeSettings) :
    ∀ i ∈ (s.extend more settings).imports, ¬i.Explains name := by
  intro i hi
  rcases List.mem_append.mp hi with hi | hi
  · exact h i hi
  · exact Import.not_explains_of_wildcard (hm i hi) name

theorem classOf_extend_of_provided (h : ∀ i ∈ s.imports, ¬i.Explains name)
    (hp : s.knows (qualify s.package.toList name) = true ∨ ∃ i ∈ s.imports, s.Provides i name)
    {more : List Import} (hm : ∀ i ∈ more, i.wildcard = true) (settings : ScopeSettings) :
    (s.extend more settings).classOf name = s.classOf name := by
  have hextend := not_explains_extend h hm settings
  cases hk : s.knows (qualify s.package.toList name) with
  | true =>
    rw [classOf_of_knows h hk, classOf_of_knows hextend hk]
    rfl
  | false =>
    rw [hk] at hp
    obtain ⟨before, i, after, hs, hi, hbefore⟩ :=
      exists_first_provider (hp.resolve_left Bool.false_ne_true)
    have hs' : (s.extend more settings).imports = before ++ i :: (after ++ more) := by
      unfold extend
      rw [hs, List.append_assoc, List.cons_append]
    rw [classOf_of_first h hk hs hi hbefore, classOf_of_first hextend hk hs' hi hbefore]
    apply binaryNameOf_congr
    rfl

/-- The imports behind the one that provides the name are not needed. -/
theorem classOf_withOnly (h : ∀ i ∈ s.imports, ¬i.Explains name)
    (hk : s.knows (qualify s.package.toList name) = false) {before after : List Import} {i : Import}
    (hs : s.imports = before ++ i :: after) (hi : s.Provides i name)
    (hbefore : ∀ j ∈ before, ¬s.Provides j name) :
    (s.withOnly i).classOf name = s.classOf name := by
  have hone : ∀ j ∈ (s.withOnly i).imports, ¬j.Explains name := by
    intro j hj
    rw [List.mem_singleton.mp hj]
    exact Import.not_explains_of_wildcard hi.1 name
  have hnone : ∀ j ∈ ([] : List Import), ¬s.Provides j name := by simp
  rw [classOf_of_first h hk hs hi hbefore, classOf_of_first hone hk rfl hi hnone]
  apply binaryNameOf_congr
  rfl

/-- The first rule that explains a name decides what it means. -/
theorem resolve_first_rule {s : Scope} {text : String} {name : List Char}
    (hn : ReadAsName text name) (hp : s.parameter? (String.ofList name) = none) :
    ((∃ i ∈ s.imports, i.Explains name) → ∀ more settings,
      (s.extend more settings).resolve text = s.resolve text) ∧
    ((∀ i ∈ s.imports, ¬i.Explains name) →
      (s.knows (qualify s.package.toList name) = true ∨ ∃ i ∈ s.imports, s.Provides i name) →
      ∀ more, (∀ i ∈ more, i.wildcard = true) → ∀ settings,
        (s.extend more settings).resolve text = s.resolve text) ∧
    ((∀ i ∈ s.imports, ¬i.Explains name) → s.knows (qualify s.package.toList name) = false →
      ∀ before i after, s.imports = before ++ i :: after → s.Provides i name →
        (∀ j ∈ before, ¬s.Provides j name) →
        (s.withOnly i).resolve text = s.resolve text) := by
  refine ⟨?_, ?_, ?_⟩
  · intro h more settings
    exact hn.resolve_congr rfl hp (classOf_extend_of_explained h more settings)
  · intro h hk more hm settings
    exact hn.resolve_congr rfl hp (classOf_extend_of_provided h hk hm settings)
  · intro h hk before i after hs hi hbefore
    exact hn.resolve_congr rfl hp (classOf_withOnly h hk hs hi hbefore)

/-- A scope over two widgets, in the packages `a` and `b`. -/
def amongWidgets (imports : List Import) : Scope :=
  ⟨"me", imports, [], fun c => c = "a.Widget" || c = "b.Widget", {}⟩

/-- The widget that is imported stays, and without that the one of the first package. -/
theorem resolve_first_rule_widgets :
    ((amongWidgets [.ofClass "c.Widget"]).extend [.ofClass "b.Widget"] ⟨true, false⟩).resolve
        " Widget" = (amongWidgets [.ofClass "c.Widget"]).resolve " Widget" ∧
      ((amongWidgets [.ofPackage "b"]).extend [.ofPackage "a"] ⟨true, false⟩).resolve " Widget" =
        (amongWidgets [.ofPackage "b"]).resolve " Widget" ∧
      ((amongWidgets [.ofPackage "c", .ofPackage "b", .ofPackage "a"]).withOnly
          (.ofPackage "b")).resolve " Widget" =
        (amongWidgets [.ofPackage "c", .ofPackage "b", .ofPackage "a"]).resolve " Widget" := by
  have hn : ReadAsName " Widget" "Widget".toList :=
    ⟨by decide, by decide, by decide, by decide, by decide⟩
  have hwild : ∀ names : List String, ∀ i ∈ names.map Import.ofPackage,
      ¬i.Explains "Widget".toList := by
    intro names i hi
    obtain ⟨package, -, rfl⟩ := List.mem_map.mp hi
    exact Import.not_explains_of_wildcard rfl _
  refine ⟨?_, ?_, ?_⟩
  · refine (resolve_first_rule hn (by decide)).1 ⟨_, List.mem_singleton_self _, rfl, ?_⟩ _ _
    exact .inr (.inl ⟨['c'], by decide⟩)
  · exact (resolve_first_rule hn (by decide)).2.1 (hwild ["b"])
      (.inr ⟨_, List.mem_singleton_self _, by decide⟩) _ (by decide) _
  · exact (resolve_first_rule hn (by decide)).2.2 (hwild ["c", "b", "a"]) (by decide)
      [.ofPackage "c"] _ [.ofPackage "a"] rfl (by decide) (by decide)

end Scope
end JvmWeave
