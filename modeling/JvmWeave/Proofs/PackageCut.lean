import Mathlib.Data.List.Infix
import JvmWeave.Proofs.PlainName

/-!
# Where a package ends

A dotted name does not say which of its parts are packages and which are classes, and a binary name
does: the packages are separated by `/` and the classes by `$`.  So whoever turns the one into the
other has to cut it in two, and a wrong cut is another class.  Two things can decide.  If the class
path knows a beginning of the name, then the shortest one that it knows ends with the outermost
class, and all in front of it are packages.  If it knows none, the cut is guessed from capital
letters.

A cut is a `Reading` here: its packages and its classes.  Three facts about readings carry all that
is said about qualified names elsewhere.

* `Reading.flaw?_text_eq_none_iff`.  The binary name that is put together from a reading is checked
  as text, long after the cut.  It passes if each package would pass by itself, and the classes as
  one name.
* `Reading.eq_of_text_eq`.  Two cuts of one name that give the same binary name are the same cut,
  since the number of slashes tells how many parts are packages.  Hence "the right class was found"
  and "the name was cut at the right place" are the same statement, and only the second one is ever
  proved.
* `Reading.guessed_append_iff`.  The guess finds a given cut exactly if the last package is small
  and the classes, but for the last, are capitalized.  Packages further out do not count: one that
  is capitalized is still a package if a small one comes after it.

The walk down the class path is described in both directions, by what makes it stop
(`outermostClass?_eq_some`, `outermostClass?_eq_none_iff`) and by what it leaves behind when it has
stopped (`exists_of_outermostClass?`): a cut at a place is then evidence that no package in front of
it is called like a class.
-/

set_option autoImplicit false

namespace JvmWeave

open Text

/-! ## Parts of binary names -/

namespace BinaryName

/-- A part between two dots that class files can have in a name. -/
def IsPart (part : List Char) : Prop :=
  part ≠ [] ∧ ∀ c ∈ ['.', '/', ';', '[', '<', '>'], c ∉ part

instance (part : List Char) : Decidable (IsPart part) :=
  decidable_of_iff
    (part ≠ [] ∧ (['.', '/', ';', '[', '<', '>'].all fun c => decide (c ∉ part)) = true)
    (and_congr_right' (by simp only [List.all_eq_true, decide_eq_true_eq]))

theorem IsPart.unreserved {part : List Char} (h : IsPart part) :
    ∀ c ∈ part, c ≠ '/' ∧ isReserved c = false := by
  intro c hc
  have hnot : ∀ mark ∈ ['.', '/', ';', '[', '<', '>'], c ≠ mark := by
    rintro mark hm rfl
    exact h.2 c hm hc
  refine ⟨hnot '/' (by decide), ?_⟩
  simp only [List.forall_mem_cons] at hnot
  simp [isReserved, hnot]

theorem flaw?_eq_none_iff {name : List Char} :
    flaw? name = none ↔ ∀ part ∈ split '/' name, segmentFlaw? part = none := by
  unfold flaw?
  cases name with
  | nil => simp [split, segmentFlaw?]
  | cons c cs => simp

theorem exists_text_iff {name : List Char} :
    (∃ n : BinaryName, n.text = String.ofList name) ↔ flaw? name = none := by
  constructor
  · rintro ⟨n, hn⟩
    have hflaw := n.noFlaw
    rwa [hn, String.toList_ofList] at hflaw
  · intro hflaw
    refine ⟨⟨String.ofList name, ?_⟩, rfl⟩
    rwa [String.toList_ofList]

/-- A name is well formed if all parts of it are. -/
theorem flaw?_join_eq_none_iff {parts : List (List Char)} (hne : parts ≠ []) :
    flaw? (join '/' parts) = none ↔ ∀ part ∈ parts, flaw? part = none := by
  induction parts with
  | nil => exact absurd rfl hne
  | cons part parts ih =>
    by_cases hnil : parts = []
    · simp [hnil, join]
    · rw [join_cons hnil, List.forall_mem_cons, ← ih hnil]
      simp only [flaw?_eq_none_iff, split_append_mark, List.forall_mem_append]

theorem flaw?_nil : flaw? [] ≠ none := by decide

/-- Without marks in it a name can only be wrong by being empty. -/
theorem flaw?_eq_none_iff_ne_nil {name : List Char}
    (h : ∀ c ∈ name, c ≠ '/' ∧ isReserved c = false) : flaw? name = none ↔ name ≠ [] := by
  have hslash : '/' ∉ name := fun hm => (h '/' hm).1 rfl
  have hreserved : name.any isReserved = false := by simpa using fun c hc => (h c hc).2
  rw [flaw?_eq_none_iff, split_of_not_mem hslash, List.forall_mem_singleton]
  unfold segmentFlaw?
  cases name <;> simp_all

end BinaryName

/-! ## Readings -/

/-- How a name is cut into packages and classes, both from the outside in. -/
structure Reading where
  package : List (List Char)
  classes : List (List Char)
  deriving DecidableEq, Repr

namespace Reading

/-- The name that class files would have for it. -/
def text (r : Reading) : List Char :=
  join '/' (r.package ++ [join '$' r.classes])

/-- Every package is well formed, and so are the classes as one name. -/
def Sound (r : Reading) : Prop :=
  (∀ part ∈ r.package, BinaryName.flaw? part = none) ∧ BinaryName.flaw? (join '$' r.classes) = none

instance : DecidablePred Sound := fun _ =>
  inferInstanceAs (Decidable (_ ∧ _))

theorem flaw?_text_eq_none_iff {r : Reading} : BinaryName.flaw? r.text = none ↔ r.Sound := by
  unfold text Sound
  rw [BinaryName.flaw?_join_eq_none_iff (by simp), List.forall_mem_append,
    List.forall_mem_singleton]

/-- An empty part is refused as a package, and as the only class. -/
theorem sound_iff {r : Reading} (hne : r.classes ≠ [])
    (h : ∀ part ∈ r.package ++ r.classes, ∀ c ∈ part, c ≠ '/' ∧ BinaryName.isReserved c = false) :
    r.Sound ↔ [] ∉ r.package ∧ r.classes ≠ [[]] := by
  obtain ⟨hpackage, hclasses⟩ := List.forall_mem_append.mp h
  have hjoin : ∀ c ∈ join '$' r.classes, c ≠ '/' ∧ BinaryName.isReserved c = false := by
    intro c hc
    rcases mem_join hc with rfl | ⟨part, hpart, hm⟩
    · decide
    · exact hclasses part hpart c hm
  have hempty : join '$' r.classes ≠ [] ↔ r.classes ≠ [[]] := by
    obtain ⟨outer, nested, he⟩ := List.exists_cons_of_ne_nil hne
    rw [he]
    cases nested <;> simp [join]
  unfold Sound
  rw [BinaryName.flaw?_eq_none_iff_ne_nil hjoin, hempty]
  refine and_congr_left' ?_
  constructor
  · intro hs hm
    exact BinaryName.flaw?_nil (hs [] hm)
  · intro hm part hpart
    rw [BinaryName.flaw?_eq_none_iff_ne_nil (hpackage part hpart)]
    rintro rfl
    exact hm hpart

theorem sound_of_isPart {r : Reading} (hne : r.classes ≠ [])
    (h : ∀ part ∈ r.package ++ r.classes, BinaryName.IsPart part) : r.Sound := by
  rw [sound_iff hne fun part hpart => (h part hpart).unreserved]
  constructor
  · intro hm
    exact (h [] (List.mem_append_left _ hm)).1 rfl
  · intro he
    refine (h [] (List.mem_append_right _ ?_)).1 rfl
    rw [he]
    exact List.mem_cons_self

/-- The packages of a reading are the pieces of its text but for the last. -/
theorem package_eq_of_text_eq {r r' : Reading} (h : ∀ part ∈ r.package ++ r.classes, '/' ∉ part)
    (h' : ∀ part ∈ r'.package ++ r'.classes, '/' ∉ part) (he : r.text = r'.text) :
    r.package = r'.package := by
  have hpieces : ∀ r : Reading, (∀ part ∈ r.package ++ r.classes, '/' ∉ part) →
      ∀ piece ∈ r.package ++ [join '$' r.classes], '/' ∉ piece := by
    intro r hr piece hpiece hm
    rcases List.mem_append.mp hpiece with hp | hp
    · exact hr piece (List.mem_append_left _ hp) hm
    · rw [List.mem_singleton.mp hp] at hm
      rcases mem_join hm with he | ⟨part, hpart, hm⟩
      · exact absurd he (by decide)
      · exact hr part (List.mem_append_right _ hpart) hm
  have hjoined := eq_of_join_eq (by simp) (by simp) (hpieces r h) (hpieces r' h') he
  exact (List.append_inj' hjoined rfl).1

/-- Different cuts of one name are different names. -/
theorem eq_of_text_eq {r r' : Reading} (h : ∀ part ∈ r.package ++ r.classes, '/' ∉ part)
    (hr : r.package ++ r.classes = r'.package ++ r'.classes) (he : r.text = r'.text) : r = r' := by
  have hpackage := package_eq_of_text_eq h (hr ▸ h) he
  obtain ⟨package, classes⟩ := r
  obtain ⟨package', classes'⟩ := r'
  dsimp only at hr hpackage
  subst hpackage
  rw [List.append_cancel_left hr]

/-! ### Capital letters -/

/-- The cut by capital letters: the last part is a class, and so are those with a capital letter
    directly in front of it. -/
def guessed : List (List Char) → Reading
  | [] => ⟨[], []⟩
  | part :: parts =>
    if (part :: parts).dropLast.all BinaryName.startsUppercase then ⟨[], part :: parts⟩
    else ⟨part :: (guessed parts).package, (guessed parts).classes⟩

theorem classes_guessed_ne_nil {parts : List (List Char)} (h : parts ≠ []) :
    (guessed parts).classes ≠ [] := by
  induction parts with
  | nil => exact absurd rfl h
  | cons part parts ih =>
    rw [guessed]
    split
    · simp
    · next hall =>
      refine ih ?_
      rintro rfl
      exact hall rfl

theorem package_append_classes_guessed (parts : List (List Char)) :
    (guessed parts).package ++ (guessed parts).classes = parts := by
  induction parts with
  | nil => rfl
  | cons part parts ih =>
    rw [guessed]
    split
    · rfl
    · simp [ih]

/-- The guess is right if the packages end with a small one and the classes around a class are
capitalized. -/
theorem guessed_append_iff {package classes : List (List Char)} (hne : classes ≠ []) :
    guessed (package ++ classes) = ⟨package, classes⟩ ↔
      (∀ part ∈ package.getLast?, BinaryName.startsUppercase part = false) ∧
        ∀ part ∈ classes.dropLast, BinaryName.startsUppercase part = true := by
  induction package with
  | nil =>
    obtain ⟨outer, nested, rfl⟩ := List.exists_cons_of_ne_nil hne
    rw [List.nil_append, guessed]
    split
    · next hall => simpa using hall
    · next hall => simpa using hall
  | cons part package ih =>
    have hlast : (part :: (package ++ classes)).dropLast =
        part :: (package ++ classes.dropLast) := by
      rw [← List.cons_append, List.dropLast_append_of_ne_nil hne, List.cons_append]
    rw [List.cons_append, guessed, hlast, List.all_cons, List.all_append]
    split
    · next hall =>
      -- all is capitalized, the last package too
      simp only [Bool.and_eq_true, List.all_eq_true] at hall
      obtain ⟨hpart, hpackage, -⟩ := hall
      refine iff_of_false (by simp) ?_
      rintro ⟨hsmall, -⟩
      have hcapital : BinaryName.startsUppercase
          ((part :: package).getLast (List.cons_ne_nil _ _)) = true := by
        rcases List.mem_cons.mp (List.getLast_mem (List.cons_ne_nil part package)) with he | hm
        · rw [he]
          exact hpart
        · exact hpackage _ hm
      rw [hsmall _ (List.getLast?_eq_getLast_of_ne_nil _)] at hcapital
      cases hcapital
    · next hall =>
      have hcut : (⟨part :: (guessed (package ++ classes)).package,
          (guessed (package ++ classes)).classes⟩ : Reading) = ⟨part :: package, classes⟩ ↔
          guessed (package ++ classes) = ⟨package, classes⟩ := by
        cases guessed (package ++ classes)
        simp
      rw [hcut, ih]
      refine and_congr_left fun hclasses => ?_
      by_cases hnil : package = []
      · -- the part is the only package, and the classes do not explain that not all is capitalized
        subst hnil
        have hsmall : BinaryName.startsUppercase part = false := by
          rw [Bool.eq_false_iff]
          intro hpart
          apply hall
          simpa [hpart] using hclasses
        simp [hsmall]
      · rw [List.getLast?_cons_of_ne_nil hnil]

end Reading

namespace BinaryName

theorem joinGuessed_cons {part : List Char} {parts : List (List Char)} (h : parts ≠ []) :
    joinGuessed (part :: parts) =
      part ++ (if (part :: parts).dropLast.all startsUppercase then '$' else '/') ::
        joinGuessed parts := by
  cases parts with
  | nil => exact absurd rfl h
  | cons next parts => rfl

theorem joinGuessed_of_uppercase {parts : List (List Char)}
    (h : parts.dropLast.all startsUppercase = true) : joinGuessed parts = join '$' parts := by
  induction parts with
  | nil => rfl
  | cons part parts ih =>
    by_cases hnil : parts = []
    · subst hnil
      rfl
    · rw [joinGuessed_cons hnil, if_pos h, join_cons hnil, ih]
      rw [List.dropLast_cons_of_ne_nil hnil, List.all_cons, Bool.and_eq_true] at h
      exact h.2

/-- The guess joins what the cut by capital letters gives. -/
theorem joinGuessed_eq_text {parts : List (List Char)} (h : parts ≠ []) :
    joinGuessed parts = (Reading.guessed parts).text := by
  induction parts with
  | nil => exact absurd rfl h
  | cons part parts ih =>
    rw [Reading.guessed]
    split
    · next hall => exact joinGuessed_of_uppercase hall
    · next hall =>
      have hnil : parts ≠ [] := by
        rintro rfl
        exact hall rfl
      rw [joinGuessed_cons hnil, if_neg hall, ih hnil]
      unfold Reading.text
      rw [List.cons_append, join_cons (by simp)]

end BinaryName

/-! ## The cut of a name -/

namespace Scope

/-- The walk down a name ends at the first part that completes a known class. -/
theorem outermostClass?_eq_some {s : Scope} {before package nested : List (List Char)}
    {outer : List Char}
    (hp : ∀ p, p ≠ [] → p <+: package → s.knows (join '.' (before ++ p)) = false)
    (ho : s.knows (join '.' (before ++ package ++ [outer])) = true) :
    s.outermostClass? before (package ++ outer :: nested) =
      some (before ++ package, outer :: nested) := by
  induction package generalizing before with
  | nil =>
    rw [List.append_nil] at ho ⊢
    rw [List.nil_append, outermostClass?, if_pos ho]
  | cons part package ih =>
    have hpart := hp [part] (by simp) (by simp)
    rw [List.cons_append, outermostClass?, if_neg (by rw [hpart]; simp), ih]
    · simp
    · intro p hne hpre
      have := hp (part :: p) (by simp) (by simpa using hpre)
      simpa using this
    · simpa using ho

/-- The walk runs through a name of which no beginning is known. -/
theorem outermostClass?_eq_none_iff {s : Scope} {before parts : List (List Char)} :
    s.outermostClass? before parts = none ↔
      ∀ p, p ≠ [] → p <+: parts → s.knows (join '.' (before ++ p)) = false := by
  induction parts generalizing before with
  | nil =>
    refine iff_of_true rfl fun p hne hpre => ?_
    exact absurd (List.prefix_nil.mp hpre) hne
  | cons part parts ih =>
    rw [outermostClass?]
    by_cases hk : s.knows (join '.' (before ++ [part])) = true
    · rw [if_pos hk]
      refine iff_of_false (by simp) fun h => ?_
      rw [h [part] (by simp) (by simp)] at hk
      cases hk
    · rw [if_neg hk, ih]
      constructor
      · intro h p hne hpre
        obtain ⟨first, rest, rfl⟩ := List.exists_cons_of_ne_nil hne
        obtain ⟨rfl, hrest⟩ := List.cons_prefix_cons.mp hpre
        by_cases hnil : rest = []
        · subst hnil
          exact Bool.eq_false_iff.mpr hk
        · simpa using h rest hnil hrest
      · intro h p hne hpre
        rw [List.append_assoc, List.singleton_append]
        exact h (part :: p) (by simp) (List.cons_prefix_cons.mpr ⟨rfl, hpre⟩)

/-- Where the walk has stopped, it has passed no class. -/
theorem exists_of_outermostClass? {s : Scope} {before parts package classes : List (List Char)}
    (h : s.outermostClass? before parts = some (package, classes)) :
    ∃ inner, package = before ++ inner ∧ parts = inner ++ classes ∧ classes ≠ [] ∧
      ∀ p, p ≠ [] → p <+: inner → s.knows (join '.' (before ++ p)) = false := by
  induction parts generalizing before with
  | nil => cases h
  | cons part parts ih =>
    rw [outermostClass?] at h
    by_cases hk : s.knows (join '.' (before ++ [part])) = true
    · rw [if_pos hk] at h
      cases h
      refine ⟨[], by simp, rfl, by simp, fun p hne hpre => ?_⟩
      exact absurd (List.prefix_nil.mp hpre) hne
    · rw [if_neg hk] at h
      obtain ⟨inner, rfl, rfl, hne, hinner⟩ := ih h
      refine ⟨part :: inner, by simp, rfl, hne, fun p hp hpre => ?_⟩
      obtain ⟨first, rest, rfl⟩ := List.exists_cons_of_ne_nil hp
      obtain ⟨rfl, hrest⟩ := List.cons_prefix_cons.mp hpre
      by_cases hnil : rest = []
      · subst hnil
        exact Bool.eq_false_iff.mpr hk
      · simpa using hinner rest hnil hrest

/-- The cut of a qualified name: in front of the outermost class that is known, or else by capital
letters.  A package without a name in front of a known class is none. -/
def cut (s : Scope) (qualified : List Char) : Reading :=
  match s.outermostClass? [] (split '.' qualified) with
  | some (package, classes) => ⟨if join '/' package = [] then [] else package, classes⟩
  | none => .guessed (split '.' qualified)

theorem classes_cut_ne_nil (s : Scope) (qualified : List Char) :
    (s.cut qualified).classes ≠ [] := by
  unfold cut
  split
  · next h =>
    obtain ⟨-, -, -, hne, -⟩ := exists_of_outermostClass? h
    exact hne
  · exact Reading.classes_guessed_ne_nil (split_ne_nil _ _)

theorem mem_split_of_mem_cut {s : Scope} {qualified part : List Char}
    (h : part ∈ (s.cut qualified).package ++ (s.cut qualified).classes) :
    part ∈ split '.' qualified := by
  unfold cut at h
  split at h
  · next package classes hfound =>
    obtain ⟨inner, rfl, hsplit, -, -⟩ := exists_of_outermostClass? hfound
    rw [hsplit]
    refine (List.mem_append.mp h).elim (fun hm => ?_) (List.mem_append_right _)
    split at hm
    · cases hm
    · exact List.mem_append_left _ hm
  · rwa [Reading.package_append_classes_guessed] at h

theorem binaryNameOf_eq (s : Scope) (qualified : List Char) :
    s.binaryNameOf qualified = classNamed qualified (s.cut qualified).text := by
  unfold binaryNameOf cut
  cases s.outermostClass? [] (split '.' qualified) with
  | none =>
    dsimp only
    rw [BinaryName.joinGuessed_eq_text (split_ne_nil _ _)]
  | some found =>
    obtain ⟨package, classes⟩ := found
    dsimp only
    by_cases hp : join '/' package = []
    · rw [if_pos hp, if_pos hp]
      rfl
    · have hne : package ≠ [] := by
        rintro rfl
        exact hp rfl
      rw [if_neg hp, if_neg hp, ← join_append_singleton _ hne]
      rfl

/-! ### Names of well-formed parts -/

section Parts

variable {s : Scope}

theorem split_join_of_isPart {parts : List (List Char)} (hne : parts ≠ [])
    (hparts : ∀ part ∈ parts, BinaryName.IsPart part) : split '.' (join '.' parts) = parts :=
  split_join hne fun part hpart => (hparts part hpart).2 '.' (by decide)

/-- Packages with names are kept in front of a known class. -/
theorem package_of_isPart {package : List (List Char)}
    (h : ∀ part ∈ package, BinaryName.IsPart part) :
    (if join '/' package = [] then [] else package) = package := by
  by_cases hnil : package = []
  · simp [hnil]
  · rw [if_neg (join_ne_nil hnil fun part hm => (h part hm).1)]

theorem cut_of_outermost {package nested : List (List Char)} {outer : List Char}
    (hparts : ∀ part ∈ package ++ outer :: nested, BinaryName.IsPart part)
    (ho : s.knows (join '.' (package ++ [outer])) = true)
    (hp : ∀ p, p ≠ [] → p <+: package → s.knows (join '.' p) = false) :
    s.cut (join '.' (package ++ outer :: nested)) = ⟨package, outer :: nested⟩ := by
  have houter : s.outermostClass? [] (package ++ outer :: nested) =
      some ([] ++ package, outer :: nested) := outermostClass?_eq_some hp ho
  unfold cut
  rw [split_join_of_isPart (by simp) hparts, houter]
  dsimp only
  rw [List.nil_append, package_of_isPart fun part hm => hparts part (List.mem_append_left _ hm)]

theorem cut_of_unknown {parts : List (List Char)} (hne : parts ≠ [])
    (hparts : ∀ part ∈ parts, BinaryName.IsPart part)
    (h : ∀ p, p ≠ [] → p <+: parts → s.knows (join '.' p) = false) :
    s.cut (join '.' parts) = .guessed parts := by
  have hnone : s.outermostClass? [] parts = none := outermostClass?_eq_none_iff.mpr h
  unfold cut
  rw [split_join_of_isPart hne hparts, hnone]

theorem package_append_classes_cut {parts : List (List Char)} (hne : parts ≠ [])
    (hparts : ∀ part ∈ parts, BinaryName.IsPart part) :
    (s.cut (join '.' parts)).package ++ (s.cut (join '.' parts)).classes = parts := by
  unfold cut
  rw [split_join_of_isPart hne hparts]
  cases hfound : s.outermostClass? [] parts with
  | none => exact Reading.package_append_classes_guessed parts
  | some found =>
    obtain ⟨package, classes⟩ := found
    obtain ⟨inner, rfl, rfl, -, -⟩ := exists_of_outermostClass? hfound
    dsimp only [List.nil_append]
    rw [package_of_isPart fun part hm => hparts part (List.mem_append_left _ hm)]

/-- No package in front of a cut is called like a class. -/
theorem unknown_of_cut_eq {package classes : List (List Char)} (hne : classes ≠ [])
    (hparts : ∀ part ∈ package ++ classes, BinaryName.IsPart part)
    (h : s.cut (join '.' (package ++ classes)) = ⟨package, classes⟩) :
    ∀ p, p ≠ [] → p <+: package → s.knows (join '.' p) = false := by
  unfold cut at h
  rw [split_join_of_isPart (by simp [hne]) hparts] at h
  cases hfound : s.outermostClass? [] (package ++ classes) with
  | none =>
    intro p hp hpre
    exact outermostClass?_eq_none_iff.mp hfound p hp (hpre.trans (List.prefix_append _ _))
  | some found =>
    obtain ⟨inner, rest⟩ := found
    obtain ⟨_, rfl, happend, -, hunknown⟩ := exists_of_outermostClass? hfound
    have hinner : ∀ part ∈ inner, BinaryName.IsPart part := by
      intro part hm
      apply hparts
      rw [happend]
      exact List.mem_append_left _ hm
    rw [hfound] at h
    dsimp only [List.nil_append] at h
    rw [package_of_isPart hinner] at h
    cases h
    exact hunknown

end Parts

end Scope

end JvmWeave
