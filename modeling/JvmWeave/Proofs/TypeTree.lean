import JvmWeave.Proofs.Reading
import JvmWeave.Proofs.TopLevel

/-!
# Types as they are written

A type in source is a keyword, a name, an array or a name with arguments, and blanks may stand in
many places.  `TypeTree` is such a type with its blanks, `text` writes it down, and `eval` says what
it means from what its names mean.  Resolving the text of a tree gives what the tree means, if all
names in it mean something.

The tree is independent of the reader.  It has no notion of cutting, of trimming or of the order in
which the reader tries things, and not every text that the reader accepts is that of a tree.  A name
in it is a `RawName`, which has none of the characters that mean something to the reader; that it is
known is another matter, and is `Resolves`.

The induction needs two things of the text of a tree.  It is `Readable`: it does not begin or end
with a blank, its brackets match, and its commas are inside of them.  And it does not begin like a
wildcard.  With these each level of the text is cut where the tree is put together, whatever gaps
are in between.
-/

set_option autoImplicit false

namespace JvmWeave

open Text

/-! ## Trees -/

/-- Blanks between two parts of a type. -/
structure Gap where
  text : List Char
  blank : ∀ c ∈ text, isBlank c = true

/-- A name that needs no further reading. -/
structure RawName where
  text : List Char
  ne_nil : text ≠ []
  noKeyword : Primitive.ofKeyword? (String.ofList text) = none
  plain : ∀ c ∈ text, isBlank c = false ∧ c ∉ ['<', '>', ',', '?', '[', ']']

mutual

/-- A type with the blanks that it is written with. -/
inductive TypeTree where
  | keyword (p : Primitive)
  | name (raw : RawName)
  | array (element : TypeTree) (gap : Gap)
  | applied (head : RawName) (gap : Gap) (arguments : ArgumentTrees)

inductive ArgumentTree where
  | any
  | just (type : TypeTree)
  | subtypesOf (type : TypeTree)
  | supertypesOf (type : TypeTree)

/-- One or more type arguments, each between two gaps. -/
inductive ArgumentTrees where
  | last (before : Gap) (argument : ArgumentTree) (after : Gap)
  | more (before : Gap) (argument : ArgumentTree) (after : Gap) (rest : ArgumentTrees)

end

/-- A wildcard in front of a type. -/
def wildcardText (keyword : String) (type : List Char) : List Char :=
  '?' :: ' ' :: (keyword.toList ++ ' ' :: type)

mutual

/-- The text of the type. -/
def TypeTree.text : TypeTree → List Char
  | .keyword p => p.keyword.toList
  | .name raw => raw.text
  | .array element gap => element.text ++ gap.text ++ ['[', ']']
  | .applied head gap arguments => head.text ++ gap.text ++ '<' :: (arguments.text ++ ['>'])

def ArgumentTree.text : ArgumentTree → List Char
  | .any => ['?']
  | .just type => type.text
  | .subtypesOf type => wildcardText "extends" type.text
  | .supertypesOf type => wildcardText "super" type.text

def ArgumentTrees.text : ArgumentTrees → List Char
  | .last before argument after => before.text ++ argument.text ++ after.text
  | .more before argument after rest =>
    before.text ++ argument.text ++ after.text ++ ',' :: rest.text

end

/-- What the name means on its own. -/
def RawName.eval (s : Scope) (raw : RawName) : Option JavaType :=
  (s.resolve (String.ofList raw.text)).toOption

mutual

/-- What the type means, from what its parts mean. -/
def TypeTree.eval (s : Scope) : TypeTree → Option JavaType
  | .keyword p => some (.primitive p)
  | .name raw => raw.eval s
  | .array element _ => (element.eval s).map .arrayOf
  | .applied head _ arguments =>
    (head.eval s).bind fun t => (arguments.eval s).bind fun as => (t.withArguments as).toOption

def ArgumentTree.eval (s : Scope) : ArgumentTree → Option TypeArgument
  | .any => some .any
  | .just type => (type.eval s).map .just
  | .subtypesOf type => (type.eval s).map .subtypesOf
  | .supertypesOf type => (type.eval s).map .supertypesOf

def ArgumentTrees.eval (s : Scope) : ArgumentTrees → Option (List TypeArgument)
  | .last _ argument _ => (argument.eval s).map fun a => [a]
  | .more _ argument _ rest => (argument.eval s).bind fun a => (rest.eval s).map (a :: ·)

end

/-- A class that can be given arguments. -/
def JavaType.TakesArguments (t : JavaType) : Prop :=
  t.category = .classType ∧ t.isVariable = false

instance : DecidablePred JavaType.TakesArguments := fun _ =>
  inferInstanceAs (Decidable (_ ∧ _))

mutual

/-- All names in the type mean something, and those with arguments a class that takes them. -/
def TypeTree.Resolves (s : Scope) : TypeTree → Prop
  | .keyword _ => True
  | .name raw => ∃ t, raw.eval s = some t
  | .array element _ => element.Resolves s
  | .applied head _ arguments =>
    (∃ t, head.eval s = some t ∧ t.TakesArguments) ∧ arguments.Resolves s

def ArgumentTree.Resolves (s : Scope) : ArgumentTree → Prop
  | .any => True
  | .just type | .subtypesOf type | .supertypesOf type => type.Resolves s

def ArgumentTrees.Resolves (s : Scope) : ArgumentTrees → Prop
  | .last _ argument _ => argument.Resolves s
  | .more _ argument _ rest => argument.Resolves s ∧ rest.Resolves s

end

/-! ## Texts without blanks around them -/

/-- The text neither starts nor ends with a blank. -/
structure Solid (text : List Char) : Prop where
  start : ∃ c cs, text = c :: cs ∧ isBlank c = false
  stop : ∃ cs c, text = cs ++ [c] ∧ isBlank c = false

namespace Solid

variable {text : List Char}

theorem trimEnd_gap (h : Solid text) (gap : Gap) : trimEnd (text ++ gap.text) = text := by
  obtain ⟨cs, c, rfl, hc⟩ := h.stop
  rw [List.append_assoc, List.singleton_append, trimEnd_append_cons _ _ hc,
    trimEnd_of_blank gap.blank]

theorem trim_gaps (h : Solid text) (before after : Gap) :
    trim (before.text ++ text ++ after.text) = text := by
  obtain ⟨c, cs, he, hc⟩ := h.start
  have hstart : trimStart (before.text ++ text ++ after.text) = text ++ after.text := by
    rw [he, List.append_assoc, List.cons_append, trimStart_append_cons _ _ hc,
      trimStart_of_blank before.blank]
    rfl
  unfold trim
  rw [hstart, h.trimEnd_gap]

theorem trim_eq (h : Solid text) : trim text = text := by
  simpa using h.trim_gaps ⟨[], nofun⟩ ⟨[], nofun⟩

theorem append_right (h : Solid text) {c : Char} (hc : isBlank c = false) (cs : List Char) :
    Solid (text ++ cs ++ [c]) := by
  obtain ⟨d, ds, rfl, hd⟩ := h.start
  exact ⟨⟨d, ds ++ cs ++ [c], by simp, hd⟩, ⟨_, c, rfl, hc⟩⟩

theorem append_left (h : Solid text) {c : Char} (hc : isBlank c = false) (cs : List Char) :
    Solid (c :: (cs ++ text)) := by
  obtain ⟨ds, d, rfl, hd⟩ := h.stop
  exact ⟨⟨c, _, rfl, hc⟩, ⟨c :: (cs ++ ds), d, by simp, hd⟩⟩

theorem of_notBlank (hne : text ≠ []) (h : ∀ c ∈ text, isBlank c = false) : Solid text := by
  constructor
  · obtain ⟨c, cs, rfl⟩ := List.exists_cons_of_ne_nil hne
    exact ⟨c, cs, rfl, h c (by simp)⟩
  · obtain ⟨cs, c, rfl⟩ := (List.eq_nil_or_concat' text).resolve_left hne
    exact ⟨cs, c, rfl, h c (by simp)⟩

end Solid

/-- A text that is read as one argument. -/
structure Readable (text : List Char) : Prop where
  solid : Solid text
  balanced : Balanced text
  uncut : Uncut ',' 0 text

/-! ## Texts of trees -/

namespace RawName

theorem not_mem {c : Char} (raw : RawName) (h : c ∈ ['<', '>', ',', '?', '[', ']']) :
    c ∉ raw.text := fun hm => (raw.plain c hm).2 h

theorem solid (raw : RawName) : Solid raw.text :=
  .of_notBlank raw.ne_nil fun c hc => (raw.plain c hc).1

theorem plainName (raw : RawName) : PlainName raw.text where
  ne_nil := raw.ne_nil
  notBlank := fun c hc => (raw.plain c hc).1
  noOpen := raw.not_mem (by decide)
  noClose := raw.not_mem (by decide)
  noArray := stripSuffix?_eq_none List.mem_cons_self (raw.not_mem (by decide))
  noKeyword := raw.noKeyword

theorem readable (raw : RawName) : Readable raw.text where
  solid := raw.solid
  balanced := .of_not_mem raw.plainName.noOpen raw.plainName.noClose
  uncut := (Balanced.of_not_mem raw.plainName.noOpen raw.plainName.noClose).uncut_of_not_mem
    (raw.not_mem (by decide))

end RawName

namespace Gap

theorem not_mem {c : Char} (gap : Gap) (h : isBlank c = false) : c ∉ gap.text := fun hm => by
  rw [gap.blank c hm] at h
  cases h

theorem balanced (gap : Gap) : Balanced gap.text :=
  .of_not_mem (gap.not_mem (by decide)) (gap.not_mem (by decide))

theorem uncut (gap : Gap) : Uncut ',' 0 gap.text :=
  gap.balanced.uncut_of_not_mem (gap.not_mem (by decide))

end Gap

theorem Readable.wildcard {text : List Char} {keyword : String} (h : Readable text)
    (hk : keyword = "extends" ∨ keyword = "super") : Readable (wildcardText keyword text) := by
  have hb : Balanced (' ' :: keyword.toList ++ [' ']) := by
    rcases hk with rfl | rfl <;> exact .of_not_mem (by decide) (by decide)
  have hu : Uncut ',' 0 (' ' :: keyword.toList ++ [' ']) := by
    rcases hk with rfl | rfl <;> decide
  have he : wildcardText keyword text = '?' :: (' ' :: keyword.toList ++ [' '] ++ text) := by
    simp [wildcardText]
  rw [he]
  exact ⟨h.solid.append_left (by decide) _, .char (by decide) (by decide) (hb.append h.balanced),
    ⟨by decide, hu.append h.uncut⟩⟩

mutual

/-- Types are readable, and do not start like wildcards. -/
theorem TypeTree.readable : ∀ tree : TypeTree, Readable tree.text ∧ tree.text.head? ≠ some '?'
  | .keyword p => by
    have hsolid : Solid p.keyword.toList := by
      refine .of_notBlank ?_ (notBlank_of_all ?_) <;> cases p <;> decide
    have hb : Balanced p.keyword.toList := by
      cases p <;> exact .of_not_mem (by decide) (by decide)
    have hu : Uncut ',' 0 p.keyword.toList := by cases p <;> decide
    rw [TypeTree.text]
    exact ⟨⟨hsolid, hb, hu⟩, by cases p <;> decide⟩
  | .name raw => by
    rw [TypeTree.text]
    exact ⟨raw.readable, fun h => raw.not_mem (by decide) (List.mem_of_head? h)⟩
  | .array element gap => by
    obtain ⟨h, hhead⟩ := element.readable
    have hclose : Uncut ',' 0 ['[', ']'] := by decide
    rw [TypeTree.text]
    refine ⟨⟨?_, ?_, (h.uncut.append gap.uncut).append hclose⟩, ?_⟩
    · have := h.solid.append_right (show isBlank ']' = false by decide) (gap.text ++ ['['])
      simpa using this
    · exact (h.balanced.append gap.balanced).append (.of_not_mem (by decide) (by decide))
    · obtain ⟨c, cs, he, -⟩ := h.solid.start
      rw [he] at hhead ⊢
      exact hhead
  | .applied head gap arguments => by
    have hlist := arguments.balanced
    rw [TypeTree.text]
    refine ⟨⟨?_, ?_, ?_⟩, ?_⟩
    · have := head.solid.append_right (show isBlank '>' = false by decide) (gap.text ++ '<' :: arguments.text)
      simpa using this
    · exact (head.readable.balanced.append gap.balanced).append hlist.enclosed
    · exact (head.readable.uncut.append gap.uncut).append (hlist.uncut_enclosed (by decide))
    · obtain ⟨c, cs, he, -⟩ := head.solid.start
      rw [he]
      intro h
      have hc : c = '?' := by simpa using h
      exact head.not_mem (show '?' ∈ _ by decide) (by rw [he, hc]; simp)

theorem ArgumentTree.readable : ∀ argument : ArgumentTree, Readable argument.text
  | .any => by
    rw [ArgumentTree.text]
    exact ⟨.of_notBlank (by simp) (notBlank_of_all (by decide)), .of_not_mem (by decide) (by decide),
      by decide⟩
  | .just type => by
    rw [ArgumentTree.text]
    exact type.readable.1
  | .subtypesOf type => by
    rw [ArgumentTree.text]
    exact type.readable.1.wildcard (.inl rfl)
  | .supertypesOf type => by
    rw [ArgumentTree.text]
    exact type.readable.1.wildcard (.inr rfl)

theorem ArgumentTrees.balanced : ∀ arguments : ArgumentTrees, Balanced arguments.text
  | .last before argument after => by
    rw [ArgumentTrees.text]
    exact (before.balanced.append argument.readable.balanced).append after.balanced
  | .more before argument after rest => by
    rw [ArgumentTrees.text]
    exact ((before.balanced.append argument.readable.balanced).append after.balanced).append
      (.char (by decide) (by decide) rest.balanced)

end

/-! ## What texts of trees mean -/

theorem toOption_eq_some_iff {ε α : Type} {x : Except ε α} {a : α} :
    x.toOption = some a ↔ x = .ok a := by
  cases x <;> simp [Except.toOption]

theorem splitWildcard_of_head {text : List Char} (h : text.head? ≠ some '?') :
    splitWildcard text = .just text := by
  cases text with
  | nil => rfl
  | cons c cs =>
    have hc : c ≠ '?' := fun he => h (by rw [he]; rfl)
    rw [splitWildcard, if_neg hc]

theorem splitWildcard_wildcardText {text : List Char} (h : Readable text) :
    splitWildcard (wildcardText "extends" text) = .subtypesOf text ∧
      splitWildcard (wildcardText "super" text) = .supertypesOf text := by
  have hblank : ∃ c ∈ text, isBlank c = false := by
    obtain ⟨c, cs, rfl, hc⟩ := h.solid.start
    exact ⟨c, by simp, hc⟩
  obtain ⟨hupper, hlower⟩ := splitWildcard_bounded hblank
  rw [h.solid.trim_eq] at hupper hlower
  constructor
  · rw [← hupper, ← (h.wildcard (.inl rfl)).solid.trim_eq]
    rfl
  · rw [← hlower, ← (h.wildcard (.inr rfl)).solid.trim_eq]
    rfl

/-- Arguments are cut at the commas between them, and gaps are dropped. -/
theorem splitArguments_gaps {text : List Char} (h : Readable text) (before after : Gap) :
    splitArguments (before.text ++ text ++ after.text) = [text] ∧
      ∀ rest, splitArguments (before.text ++ text ++ after.text ++ ',' :: rest) =
        text :: splitArguments rest := by
  have hu : Uncut ',' 0 (before.text ++ text ++ after.text) :=
    (before.uncut.append h.uncut).append after.uncut
  constructor
  · have hone := hu.splitCommas_append []
    rw [List.append_nil] at hone
    unfold splitArguments
    rw [hone]
    show [trim (_ ++ [])] = _
    rw [List.append_nil, h.solid.trim_gaps]
  · intro rest
    unfold splitArguments
    rw [hu.splitCommas_append, splitCommas, if_pos ⟨rfl, rfl⟩]
    show trim (_ ++ []) :: _ = _
    rw [List.append_nil, h.solid.trim_gaps]

namespace Scope

theorem resolve_ofList (s : Scope) {text : List Char} (h : Solid text) :
    s.resolve (String.ofList text) = s.typeOf text := by
  unfold resolve TypeExpr.ofString typeOf
  rw [String.toList_ofList, h.trim_eq]

theorem typeOf_raw (s : Scope) (raw : RawName) :
    s.typeOf raw.text = s.evaluateName [] (String.ofList raw.text) :=
  typeOf_named raw.plainName.noArray raw.noKeyword
    (splitGeneric_of_plain raw.plainName.noOpen raw.plainName.noClose)

theorem evaluateName_raw {s : Scope} {raw : RawName} {t : JavaType} (h : raw.eval s = some t) :
    s.evaluateName [] (String.ofList raw.text) = .ok t := by
  rwa [RawName.eval, toOption_eq_some_iff, resolve_ofList s raw.solid, typeOf_raw] at h

/-- The text of a class with arguments is read in its parts. -/
theorem typeOf_appliedText (s : Scope) (head : RawName) (gap : Gap) {list : List Char}
    (h : Balanced list) :
    s.typeOf (head.text ++ gap.text ++ '<' :: (list ++ ['>'])) =
      applyHead (String.ofList (head.text ++ gap.text ++ '<' :: (list ++ ['>'])))
        (s.evaluateName [] (String.ofList head.text))
        (untilError ((splitArguments list).map s.argumentOf)) := by
  have hopen : '<' ∉ head.text ++ gap.text := by
    simp [head.not_mem (show '<' ∈ _ by decide), gap.not_mem (show isBlank '<' = false by decide)]
  have hg := splitGeneric_some hopen h
  rw [head.solid.trimEnd_gap] at hg
  refine typeOf_applied ?_ ?_ hg
  · rw [Option.eq_none_iff_forall_ne_some]
    intro element he
    have hlast := congrArg List.getLast? (stripSuffix?_eq_some_iff.mp he)
    rw [← List.cons_append, ← List.append_assoc, List.getLast?_concat] at hlast
    simp at hlast
  · have hkeyword : ∀ p : Primitive, '<' ∉ p.keyword.toList := fun p => by cases p <;> decide
    exact ofKeyword?_eq_none hkeyword (by simp)

end Scope

theorem JavaType.TakesArguments.exists_withArguments {t : JavaType} (h : t.TakesArguments)
    (arguments : List TypeArgument) : ∃ u, t.withArguments arguments = .ok u := by
  unfold withArguments
  rw [if_neg (by simp [h.1, h.2])]
  split
  · exact ⟨_, rfl⟩
  · exact ⟨_, rfl⟩

mutual

/-- The text of a tree whose names resolve means what the tree means. -/
theorem TypeTree.typeOf_text {s : Scope} : ∀ {tree : TypeTree}, tree.Resolves s →
    ∃ t, tree.eval s = some t ∧ s.typeOf tree.text = .ok t
  | .keyword p, _ => by
    refine ⟨.primitive p, rfl, ?_⟩
    rw [TypeTree.text]
    exact Scope.typeOf_keyword (by cases p <;> decide)
      (by rw [String.ofList_toList, Primitive.ofKeyword?_keyword])
  | .name raw, h => by
    rw [TypeTree.Resolves] at h
    obtain ⟨t, ht⟩ := h
    refine ⟨t, ht, ?_⟩
    rw [TypeTree.text, Scope.typeOf_raw]
    exact Scope.evaluateName_raw ht
  | .array element gap, h => by
    rw [TypeTree.Resolves] at h
    obtain ⟨t, he, ht⟩ := TypeTree.typeOf_text h
    refine ⟨.arrayOf t, by rw [TypeTree.eval, he]; rfl, ?_⟩
    rw [TypeTree.text, Scope.typeOf_array (stripSuffix?_eq_some_iff.mpr rfl),
      element.readable.1.solid.trimEnd_gap, ht]
    rfl
  | .applied head gap arguments, h => by
    rw [TypeTree.Resolves] at h
    obtain ⟨⟨t, ht, htakes⟩, harguments⟩ := h
    obtain ⟨as, hs, has⟩ := ArgumentTrees.argumentOf_text harguments
    obtain ⟨u, hu⟩ := htakes.exists_withArguments as
    refine ⟨u, ?_, ?_⟩
    · rw [TypeTree.eval, ht, Option.bind_some, hs, Option.bind_some, hu]
      rfl
    · rw [TypeTree.text, Scope.typeOf_appliedText s head gap arguments.balanced,
        Scope.applyHead_eq_ok, untilError_eq_iff.mpr has]
      exact ⟨t, Scope.evaluateName_raw ht, rfl, hu⟩

theorem ArgumentTree.argumentOf_text {s : Scope} : ∀ {argument : ArgumentTree},
    argument.Resolves s → ∃ a, argument.eval s = some a ∧ s.argumentOf argument.text = .ok a
  | .any, _ => ⟨.any, rfl, rfl⟩
  | .just type, h => by
    rw [ArgumentTree.Resolves] at h
    obtain ⟨t, he, ht⟩ := TypeTree.typeOf_text h
    refine ⟨.just t, by rw [ArgumentTree.eval, he]; rfl, ?_⟩
    rw [ArgumentTree.text, Scope.argumentOf_eq, splitWildcard_of_head type.readable.2]
    dsimp only
    rw [ht]
    rfl
  | .subtypesOf type, h => by
    rw [ArgumentTree.Resolves] at h
    obtain ⟨t, he, ht⟩ := TypeTree.typeOf_text h
    refine ⟨.subtypesOf t, by rw [ArgumentTree.eval, he]; rfl, ?_⟩
    rw [ArgumentTree.text, Scope.argumentOf_eq, (splitWildcard_wildcardText type.readable.1).1]
    dsimp only
    rw [ht]
    rfl
  | .supertypesOf type, h => by
    rw [ArgumentTree.Resolves] at h
    obtain ⟨t, he, ht⟩ := TypeTree.typeOf_text h
    refine ⟨.supertypesOf t, by rw [ArgumentTree.eval, he]; rfl, ?_⟩
    rw [ArgumentTree.text, Scope.argumentOf_eq, (splitWildcard_wildcardText type.readable.1).2]
    dsimp only
    rw [ht]
    rfl

theorem ArgumentTrees.argumentOf_text {s : Scope} : ∀ {arguments : ArgumentTrees},
    arguments.Resolves s → ∃ as, arguments.eval s = some as ∧
      (splitArguments arguments.text).map s.argumentOf = as.map .ok
  | .last before argument after, h => by
    rw [ArgumentTrees.Resolves] at h
    obtain ⟨a, he, ha⟩ := ArgumentTree.argumentOf_text h
    refine ⟨[a], by rw [ArgumentTrees.eval, he]; rfl, ?_⟩
    rw [ArgumentTrees.text, (splitArguments_gaps argument.readable before after).1, List.map_cons,
      ha]
    rfl
  | .more before argument after rest, h => by
    rw [ArgumentTrees.Resolves] at h
    obtain ⟨a, he, ha⟩ := ArgumentTree.argumentOf_text h.1
    obtain ⟨as, hes, has⟩ := ArgumentTrees.argumentOf_text h.2
    refine ⟨a :: as, by rw [ArgumentTrees.eval, he, Option.bind_some, hes]; rfl, ?_⟩
    rw [ArgumentTrees.text, (splitArguments_gaps argument.readable before after).2, List.map_cons,
      ha, has]
    rfl

end

/-- A written type means what its tree means, if all names in it mean something. -/
theorem TypeTree.resolve_text (s : Scope) (tree : TypeTree) (h : tree.Resolves s) :
    ∃ t, tree.eval s = some t ∧ s.resolve (String.ofList tree.text) = .ok t := by
  obtain ⟨t, he, ht⟩ := tree.typeOf_text h
  exact ⟨t, he, (s.resolve_ofList tree.readable.1.solid).trans ht⟩

/-! ## A map -/

/-- A scope in which nothing is declared. -/
def Scope.empty : Scope :=
  ⟨"me", [], [], fun _ => false, {}⟩

def mapName : RawName :=
  ⟨"java.util.Map".toList, by decide, by decide, forall_mem_of_all (by decide)⟩

def stringName : RawName :=
  ⟨"java.lang.String".toList, by decide, by decide, forall_mem_of_all (by decide)⟩

/-- A map from strings to arrays. -/
def mapTree : TypeTree :=
  let blank : Gap := ⟨[' '], forall_mem_of_all (by decide)⟩
  let empty : Gap := ⟨[], nofun⟩
  .applied mapName blank (.more empty (.just (.name stringName)) blank
    (.last blank (.subtypesOf (.array (.array (.keyword .int) empty) blank)) blank))

theorem eval_mapTree_names :
    mapName.eval .empty = some (.erased "Ljava/util/Map;") ∧
      stringName.eval .empty = some (.erased "Ljava/lang/String;") := by
  have hmap : Scope.empty.classOf mapName.text = .ok ⟨"java/util/Map", by decide⟩ := by decide
  have hstring : Scope.empty.classOf stringName.text = .ok ⟨"java/lang/String", by decide⟩ := by
    decide
  constructor
  · rw [RawName.eval, Scope.resolve_of_plain mapName.plainName (by decide), hmap]
    rfl
  · rw [RawName.eval, Scope.resolve_of_plain stringName.plainName (by decide), hstring]
    rfl

theorem eval_mapTree : mapTree.eval .empty =
    some ⟨"Ljava/util/Map;", some "Ljava/util/Map<Ljava/lang/String;+[[I>;"⟩ := by
  obtain ⟨hmap, hstring⟩ := eval_mapTree_names
  simp only [mapTree, TypeTree.eval, ArgumentTrees.eval, ArgumentTree.eval, hmap, hstring,
    Option.map_some, Option.bind_some]
  decide

theorem resolve_text_mapTree :
    mapTree.Resolves .empty ∧
      Scope.empty.resolve "java.util.Map <java.lang.String , ? extends int[] [] >" =
        .ok ⟨"Ljava/util/Map;", some "Ljava/util/Map<Ljava/lang/String;+[[I>;"⟩ := by
  obtain ⟨hmap, hstring⟩ := eval_mapTree_names
  have hresolves : mapTree.Resolves .empty :=
    ⟨⟨_, hmap, by decide⟩, ⟨_, hstring⟩, trivial⟩
  obtain ⟨t, he, ht⟩ := TypeTree.resolve_text .empty mapTree hresolves
  have htext : String.ofList mapTree.text =
      "java.util.Map <java.lang.String , ? extends int[] [] >" := by decide
  refine ⟨hresolves, ?_⟩
  rw [← htext, ht, ← Option.some.inj (he.symm.trans eval_mapTree)]

end JvmWeave
