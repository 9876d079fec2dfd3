import Mathlib.Data.List.Nodup
import JvmWeave.Proofs.AnnotationShape

/-!
# Members of annotations

The members of an annotation are collected one after the other, those of source once their
expression has a value.  If all have values and different names then all are kept, whatever their
order.  Else the first fault decides, and what comes after it is not looked at.

Both halves are told without the loop.  `Faultless` and `FirstFault` speak of the list of pairs, and
for each list exactly one of them holds.  `Collects` speaks of the annotation: its members are
ordered by name, and under each name is the value of the pair with that name.  None of this mentions
the order of the pairs, hence `Collects.perm`, and an ordered list is known by what is found in it,
hence `Collects.unique`.  What is left for the loop is to be compared with the two.

The induction goes from the end of the list, by `faultless_concat_iff`.  A fault of a member is one
behind those before it, and that a name is already given can only be said of these.

The loop over the members of a class file is the one over those of source, with values in place of
expressions (`addMembers_eq_addEvaluated`).  The evaluation of those cannot fail, so a repeated name
is the only fault.
-/

set_option autoImplicit false

namespace JvmWeave

/-! ## Ordered lists -/

namespace KeyedList

variable {α : Type} {list list' : List (String × α)}

theorem Ordered.mem_iff (h : Ordered list) {key : String} {value : α} :
    (key, value) ∈ list ↔ get? list key = some value := by
  induction list with
  | nil => simp [get?]
  | cons p list ih =>
    obtain ⟨k, a⟩ := p
    obtain ⟨hk, hlist⟩ := List.pairwise_cons.mp h
    rw [get?, List.mem_cons, Prod.mk.injEq]
    split
    · next he =>
      have hnot : (key, value) ∉ list := fun hm => String.ne_of_lt (hk _ hm) he
      simp [he, hnot, eq_comm]
    · next hne => rw [ih hlist, or_iff_right fun he => hne he.1.symm]

theorem Ordered.nodup (h : Ordered list) : list.Nodup :=
  h.imp fun hlt he => String.ne_of_lt hlt (congrArg Prod.fst he)

/-- Ordered lists are equal if they have the same value under each key. -/
theorem Ordered.ext (h : Ordered list) (h' : Ordered list')
    (hget : ∀ key, get? list key = get? list' key) : list = list' := by
  have hperm : list.Perm list' := by
    rw [List.perm_ext_iff_of_nodup h.nodup h'.nodup]
    rintro ⟨key, value⟩
    rw [h.mem_iff, h'.mem_iff, hget]
  exact hperm.eq_of_pairwise (fun _ _ _ _ hab hba => absurd hba (String.lt_asymm hab)) h h'

end KeyedList

namespace Annotation

open KeyedList

section Members

variable {ε φ : Type}

/-! ## Faults -/

/-- All expressions have values, and no name is given twice. -/
structure Faultless (evaluate : ε → Except (AnnotationError φ) AnnotationValue)
    (pairs : List (String × ε)) : Prop where
  evaluates : ∀ pair ∈ pairs, ∃ value, evaluate pair.2 = .ok value
  distinct : (pairs.map Prod.fst).Nodup

/-- The error of a member behind others.  Its value comes first. -/
inductive Fault (evaluate : ε → Except (AnnotationError φ) AnnotationValue) (type : JavaType)
    (before : List (String × ε)) (name : String) (expr : ε) : AnnotationError φ → Prop
  | evaluation {e : AnnotationError φ} (h : evaluate expr = .error e) :
    Fault evaluate type before name expr e
  | repeated {value : AnnotationValue} (hv : evaluate expr = .ok value)
    (hn : name ∈ before.map Prod.fst) :
    Fault evaluate type before name expr (.duplicateMember type name)

/-- The error of the first member that has one. -/
def FirstFault (evaluate : ε → Except (AnnotationError φ) AnnotationValue) (type : JavaType)
    (pairs : List (String × ε)) (e : AnnotationError φ) : Prop :=
  ∃ before name expr after, pairs = before ++ (name, expr) :: after ∧
    Faultless evaluate before ∧ Fault evaluate type before name expr e

/-- The annotation has the values of these members and no others. -/
structure Collects (evaluate : ε → Except (AnnotationError φ) AnnotationValue) (type : JavaType)
    (pairs : List (String × ε)) (a : Annotation) : Prop where
  type_eq : a.type = type
  ordered : Ordered a.members
  get?_iff : ∀ name value, a.get? name = some value ↔
    ∃ expr, (name, expr) ∈ pairs ∧ evaluate expr = .ok value

variable {evaluate : ε → Except (AnnotationError φ) AnnotationValue} {type : JavaType}
  {pairs : List (String × ε)} {a : Annotation}

theorem faultless_concat_iff {name : String} {expr : ε} :
    Faultless evaluate (pairs ++ [(name, expr)]) ↔
      Faultless evaluate pairs ∧ (∃ value, evaluate expr = .ok value) ∧
        name ∉ pairs.map Prod.fst := by
  have hnames : ((pairs ++ [(name, expr)]).map Prod.fst).Nodup ↔
      (pairs.map Prod.fst).Nodup ∧ name ∉ pairs.map Prod.fst := by
    rw [List.map_append, List.map_singleton, ← List.concat_eq_append, List.nodup_concat]
    exact and_comm
  constructor
  · rintro ⟨hvalues, hdistinct⟩
    obtain ⟨hpairs, hlast⟩ := List.forall_mem_append.mp hvalues
    obtain ⟨hdistinct, hname⟩ := hnames.mp hdistinct
    exact ⟨⟨hpairs, hdistinct⟩, hlast _ (List.mem_singleton_self _), hname⟩
  · rintro ⟨⟨hvalues, hdistinct⟩, hvalue, hname⟩
    refine ⟨List.forall_mem_append.mpr ⟨hvalues, ?_⟩, hnames.mpr ⟨hdistinct, hname⟩⟩
    rintro pair hpair
    rw [List.mem_singleton.mp hpair]
    exact hvalue

/-- Without a first fault there is none. -/
theorem faultless_or_firstFault (evaluate : ε → Except (AnnotationError φ) AnnotationValue)
    (type : JavaType) (pairs : List (String × ε)) :
    Faultless evaluate pairs ∨ ∃ e, FirstFault evaluate type pairs e := by
  induction pairs using List.reverseRecOn with
  | nil => exact .inl ⟨fun _ h => absurd h List.not_mem_nil, List.nodup_nil⟩
  | append_singleton pairs pair ih =>
    obtain ⟨name, expr⟩ := pair
    -- a fault stays the first one if members are added behind it
    rcases ih with hpairs | ⟨e, before, n, x, after, rfl, hbefore, hfault⟩
    · cases he : evaluate expr with
      | error e => exact .inr ⟨e, pairs, name, expr, [], rfl, hpairs, .evaluation he⟩
      | ok value =>
        by_cases hn : name ∈ pairs.map Prod.fst
        · exact .inr ⟨_, pairs, name, expr, [], rfl, hpairs, .repeated he hn⟩
        · exact .inl (faultless_concat_iff.mpr ⟨hpairs, ⟨value, he⟩, hn⟩)
    · refine .inr ⟨e, before, n, x, after ++ [(name, expr)], ?_, hbefore, hfault⟩
      rw [List.append_assoc, List.cons_append]

/-! ## Values -/

theorem Collects.get?_eq_none (h : Collects evaluate type pairs a) {name : String}
    (hn : name ∉ pairs.map Prod.fst) : a.get? name = none := by
  rw [Option.eq_none_iff_forall_ne_some]
  intro value hv
  obtain ⟨expr, hm, -⟩ := (h.get?_iff name value).mp hv
  exact hn (List.mem_map_of_mem hm)

theorem Collects.withMember (h : Collects evaluate type pairs a) {name : String} {expr : ε}
    {value : AnnotationValue} (hv : evaluate expr = .ok value) (hn : name ∉ pairs.map Prod.fst) :
    Collects evaluate type (pairs ++ [(name, expr)]) (a.withMember name value) where
  type_eq := h.type_eq
  ordered := ordered_insert name value h.ordered
  get?_iff n v := by
    have hget : (a.withMember name value).get? n = if name = n then some value else a.get? n :=
      get?_insert _ _ _ _
    rw [hget]
    simp only [List.mem_append, List.mem_singleton, Prod.mk.injEq, or_and_right, exists_or,
      ← h.get?_iff]
    by_cases he : name = n
    · subst he
      simp [h.get?_eq_none hn, hv]
    · simp [he, Ne.symm he]

theorem Collects.unique {b : Annotation} (ha : Collects evaluate type pairs a)
    (hb : Collects evaluate type pairs b) : b = a := by
  obtain ⟨ta, ma⟩ := a
  obtain ⟨tb, mb⟩ := b
  have htype : tb = ta := hb.type_eq.trans ha.type_eq.symm
  have hmembers : mb = ma := hb.ordered.ext ha.ordered fun name => Option.ext fun value =>
    (hb.get?_iff name value).trans (ha.get?_iff name value).symm
  rw [htype, hmembers]

/-! ## Other orders -/

section Order

variable {pairs' : List (String × ε)}

theorem Faultless.perm (h : Faultless evaluate pairs) (hp : pairs'.Perm pairs) :
    Faultless evaluate pairs' :=
  ⟨fun pair hm => h.evaluates pair (hp.mem_iff.mp hm), (hp.map Prod.fst).nodup_iff.mpr h.distinct⟩

theorem Collects.perm (h : Collects evaluate type pairs a) (hp : pairs'.Perm pairs) :
    Collects evaluate type pairs' a :=
  ⟨h.type_eq, h.ordered, fun name value =>
    (h.get?_iff name value).trans (exists_congr fun _ => and_congr_left' hp.mem_iff.symm)⟩

end Order

/-! ## The loop -/

theorem addEvaluated_append {before : List (String × ε)} {b : Annotation}
    (h : a.addEvaluated evaluate before = .ok b) (after : List (String × ε)) :
    a.addEvaluated evaluate (before ++ after) = b.addEvaluated evaluate after := by
  induction before generalizing a with
  | nil =>
    cases h
    rfl
  | cons pair before ih =>
    obtain ⟨name, expr⟩ := pair
    rw [addEvaluated] at h
    rw [List.cons_append, addEvaluated]
    split at h
    · cases h
    · split at h
      · exact ih h
      · cases h

theorem addEvaluated_of_faultless (type : JavaType) (h : Faultless evaluate pairs) :
    ∃ a, (marker type).addEvaluated evaluate pairs = .ok a ∧ Collects evaluate type pairs a := by
  -- from the end of the list, so that the last member meets what all others were collected to
  induction pairs using List.reverseRecOn with
  | nil =>
    refine ⟨marker type, rfl, rfl, List.Pairwise.nil, fun name value => ?_⟩
    simp [marker, Annotation.get?, KeyedList.get?]
  | append_singleton pairs pair ih =>
    obtain ⟨name, expr⟩ := pair
    obtain ⟨hpairs, ⟨value, hv⟩, hn⟩ := faultless_concat_iff.mp h
    obtain ⟨a, ha, hc⟩ := ih hpairs
    have hadd : (a.addMember name value : Except (AnnotationError φ) Annotation) =
        .ok (a.withMember name value) :=
      addMember_eq_ok_iff.mpr ⟨hc.get?_eq_none hn, rfl⟩
    refine ⟨a.withMember name value, ?_, hc.withMember hv hn⟩
    rw [addEvaluated_append ha, addEvaluated, hv]
    dsimp only
    rw [hadd]
    rfl

theorem addEvaluated_of_firstFault {e : AnnotationError φ} (h : FirstFault evaluate type pairs e) :
    (marker type).addEvaluated evaluate pairs = .error e := by
  obtain ⟨before, name, expr, after, rfl, hbefore, hfault⟩ := h
  obtain ⟨a, ha, hc⟩ := addEvaluated_of_faultless type hbefore
  rw [addEvaluated_append ha, addEvaluated]
  cases hfault with
  | evaluation he => rw [he]
  | @repeated value hv hn =>
    -- the member of that name had a value, so that the annotation has one under the name
    obtain ⟨⟨n, other⟩, hm, he⟩ := List.mem_map.mp hn
    obtain rfl : name = n := he.symm
    obtain ⟨first, hfirst⟩ := hbefore.evaluates _ hm
    have hget : a.get? name = some first := (hc.get?_iff _ _).mpr ⟨other, hm, hfirst⟩
    have hadd : (a.addMember name value : Except (AnnotationError φ) Annotation) =
        .error (.duplicateMember type name) := by
      unfold addMember
      rw [hget, hc.type_eq]
      rfl
    rw [hv]
    dsimp only
    rw [hadd]

theorem addEvaluated_eq_error_iff {e : AnnotationError φ} :
    (marker type).addEvaluated evaluate pairs = .error e ↔ FirstFault evaluate type pairs e := by
  refine ⟨fun h => ?_, addEvaluated_of_firstFault⟩
  rcases faultless_or_firstFault evaluate type pairs with hp | ⟨e', he'⟩
  · obtain ⟨a, ha, -⟩ := addEvaluated_of_faultless type hp
    rw [ha] at h
    cases h
  · rw [addEvaluated_of_firstFault he'] at h
    cases h
    exact he'

theorem addEvaluated_eq_ok_iff :
    (marker type).addEvaluated evaluate pairs = .ok a ↔
      Faultless evaluate pairs ∧ Collects evaluate type pairs a := by
  constructor
  · intro h
    rcases faultless_or_firstFault evaluate type pairs with hp | ⟨e, he⟩
    · obtain ⟨b, hb, hc⟩ := addEvaluated_of_faultless type hp
      rw [hb] at h
      cases h
      exact ⟨hp, hc⟩
    · rw [addEvaluated_of_firstFault he] at h
      cases h
  · rintro ⟨hp, hc⟩
    obtain ⟨b, hb, hc'⟩ := addEvaluated_of_faultless type hp
    rw [hb, hc.unique hc']

end Members

/-! ## Class files -/

section Binary

variable {pairs : List (String × AnnotationValue)}

theorem addMembers_eq_addEvaluated (a : Annotation) (pairs : List (String × AnnotationValue)) :
    a.addMembers pairs = a.addEvaluated .ok pairs := by
  induction pairs generalizing a with
  | nil => rfl
  | cons pair pairs ih =>
    obtain ⟨name, value⟩ := pair
    rw [addMembers, addEvaluated]
    dsimp only
    cases (a.addMember name value : Except (AnnotationError Empty) Annotation) with
    | ok b => exact ih b
    | error e => rfl

theorem faultless_ok_iff :
    Faultless (.ok : _ → Except (AnnotationError Empty) _) pairs ↔ (pairs.map Prod.fst).Nodup :=
  ⟨fun h => h.distinct, fun h => ⟨fun pair _ => ⟨pair.2, rfl⟩, h⟩⟩

theorem ofBinary_of_class {descriptor : String} {type : JavaType}
    (hd : JavaType.ofDescriptor descriptor = .ok type) (hc : type.category = .classType)
    (pairs : List (String × AnnotationValue)) :
    ofBinary descriptor pairs = (marker type).addEvaluated .ok pairs := by
  unfold ofBinary
  rw [hd]
  dsimp only
  rw [if_pos hc, addMembers_eq_addEvaluated]

/-- Values of their own can only be given twice. -/
theorem FirstFault.repeated_of_ok {type : JavaType} {e : AnnotationError Empty}
    (h : FirstFault .ok type pairs e) :
    ∃ before name value after, pairs = before ++ (name, value) :: after ∧
      (before.map Prod.fst).Nodup ∧ name ∈ before.map Prod.fst ∧
      e = .duplicateMember type name := by
  obtain ⟨before, name, value, after, hpairs, hbefore, hfault⟩ := h
  refine ⟨before, name, value, after, hpairs, hbefore.distinct, ?_⟩
  cases hfault with
  | evaluation he => cases he
  | repeated _ hn => exact ⟨hn, rfl⟩

end Binary

theorem ofSource_normal {ε φ : Type} {scope : Scope} {name : String} {type : JavaType}
    (h : scope.resolve name = .ok type) (evaluator : Evaluator ε φ) (pairs : List (String × ε)) :
    ofSource (.normal name pairs) scope evaluator =
      (marker type).addEvaluated (evaluator · scope) pairs := by
  unfold ofSource
  dsimp only
  rw [markerNamed_eq_ok_iff.mpr ⟨type, h, rfl⟩]
  rfl

/-- Annotations have all their members, those of class files as they are and those of source with
the values of their expressions, unless there is a first that has no value or is given again. -/
theorem members_collected {descriptor : String} {type : JavaType}
    (hd : JavaType.ofDescriptor descriptor = .ok type) (hc : type.category = .classType)
    {scope : Scope} {name : String} {named : JavaType} (hr : scope.resolve name = .ok named) :
    (∀ pairs : List (String × AnnotationValue),
      ((∃ a, ofBinary descriptor pairs = .ok a) ↔ (pairs.map Prod.fst).Nodup) ∧
      (∀ a, ofBinary descriptor pairs = .ok a → a.type = type ∧
        (∀ member value, a.get? member = some value ↔ (member, value) ∈ pairs) ∧
        ∀ pairs', pairs'.Perm pairs → ofBinary descriptor pairs' = .ok a) ∧
      (¬(pairs.map Prod.fst).Nodup → ∃ before member value after,
        pairs = before ++ (member, value) :: after ∧ (before.map Prod.fst).Nodup ∧
        member ∈ before.map Prod.fst ∧
        ofBinary descriptor pairs = .error (.duplicateMember type member))) ∧
    ∀ (ε φ : Type) (evaluator : Evaluator ε φ) (pairs : List (String × ε)),
      (∀ e, ofSource (.normal name pairs) scope evaluator = .error e ↔
        FirstFault (evaluator · scope) named pairs e) ∧
      ((∀ e, ¬FirstFault (evaluator · scope) named pairs e) →
        ∃ a, ofSource (.normal name pairs) scope evaluator = .ok a ∧ a.type = named ∧
          ∀ member value, a.get? member = some value ↔
            ∃ expr, (member, expr) ∈ pairs ∧ evaluator expr scope = .ok value) := by
  refine ⟨fun pairs => ⟨?_, ?_, ?_⟩, fun ε φ evaluator pairs => ⟨?_, ?_⟩⟩
  · rw [ofBinary_of_class hd hc, ← faultless_ok_iff]
    constructor
    · rintro ⟨a, ha⟩
      exact (addEvaluated_eq_ok_iff.mp ha).1
    · intro hp
      obtain ⟨a, ha, -⟩ := addEvaluated_of_faultless type hp
      exact ⟨a, ha⟩
  · intro a ha
    rw [ofBinary_of_class hd hc] at ha
    obtain ⟨hp, hcollects⟩ := addEvaluated_eq_ok_iff.mp ha
    refine ⟨hcollects.type_eq, fun member value => ?_, fun pairs' hperm => ?_⟩
    · rw [hcollects.get?_iff]
      simp
    · rw [ofBinary_of_class hd hc]
      exact addEvaluated_eq_ok_iff.mpr ⟨hp.perm hperm, hcollects.perm hperm⟩
  · intro hn
    have hfault : Faultless (.ok : _ → Except (AnnotationError Empty) _) pairs ∨
        ∃ e, FirstFault .ok type pairs e := faultless_or_firstFault .ok type pairs
    rcases hfault with hp | ⟨e, he⟩
    · exact absurd (faultless_ok_iff.mp hp) hn
    · obtain ⟨before, member, value, after, hpairs, hbefore, hm, rfl⟩ := he.repeated_of_ok
      refine ⟨before, member, value, after, hpairs, hbefore, hm, ?_⟩
      rw [ofBinary_of_class hd hc, addEvaluated_of_firstFault he]
  · intro e
    rw [ofSource_normal hr, addEvaluated_eq_error_iff]
  · intro hnone
    have hp := (faultless_or_firstFault (evaluator · scope) named pairs).resolve_right
      fun ⟨e, he⟩ => hnone e he
    obtain ⟨a, ha, hcollects⟩ := addEvaluated_of_faultless named hp
    exact ⟨a, (ofSource_normal hr evaluator pairs).trans ha, hcollects.type_eq, hcollects.get?_iff⟩

def evaluateUnsigned : Evaluator Int32 Empty := fun n _ =>
  if n < 0 then .error (.unrecognizedForm "UnaryExpr") else .ok (.int n)

/-- Both orders give the same annotation.  A member without value has no name yet. -/
theorem members_collected_thread :
    ofBinary "Lui/Thread;" [("size", .int 1), ("name", .string "ui")] =
        ofBinary "Lui/Thread;" [("name", .string "ui"), ("size", .int 1)] ∧
      ofBinary "Lui/Thread;" [("size", .int 1), ("size", .int 2)] =
        .error (.duplicateMember (.erased "Lui/Thread;") "size") ∧
      ofSource (.normal "Thread" [("size", 1), ("size", -1), ("size", 2)]) importingThreads
        evaluateUnsigned = .error (.unrecognizedForm "UnaryExpr") := by
  have hd : JavaType.ofDescriptor "Lui/Thread;" = .ok (.erased "Lui/Thread;") := rfl
  obtain ⟨hbinary, hsource⟩ := members_collected hd (by decide) resolve_importingThreads
  refine ⟨?_, ?_, ?_⟩
  · obtain ⟨a, ha⟩ := (hbinary [("name", .string "ui"), ("size", .int 1)]).1.mpr (by decide)
    rw [ha]
    exact ((hbinary _).2.1 a ha).2.2 _ (List.Perm.swap _ _ _)
  · obtain ⟨before, member, value, after, hpairs, -, -, he⟩ :=
      (hbinary [("size", .int 1), ("size", .int 2)]).2.2 (by decide)
    rw [he]
    have hmember : (member, value) ∈ [("size", .int 1), ("size", .int 2)] := by
      rw [hpairs]
      exact List.mem_append_right _ List.mem_cons_self
    simp only [List.mem_cons, List.not_mem_nil, or_false, Prod.mk.injEq] at hmember
    rcases hmember with ⟨rfl, -⟩ | ⟨rfl, -⟩ <;> rfl
  · refine ((hsource Int32 Empty evaluateUnsigned _).1 _).mpr ⟨[("size", 1)], "size", -1, [("size", 2)],
      rfl, ⟨?_, List.nodup_singleton _⟩, .evaluation rfl⟩
    rintro pair hpair
    rw [List.mem_singleton.mp hpair]
    exact ⟨.int 1, rfl⟩

end Annotation

end JvmWeave
