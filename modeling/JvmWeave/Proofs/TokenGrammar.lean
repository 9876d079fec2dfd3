import JvmWeave.Proofs.Brackets

/-!
# The grammar of tokens

`IsToken` says which texts are types, by their shape and by the number of brackets in front of each
place in them.  The scanner takes exactly these off the front of a text, so that a text starts with
at most one of them.

The grammar does not know the scanner.  For classes it counts the brackets in every beginning of the
text: nowhere more are closed than were open, in the end none is open, and a semicolon stands only
where one is.  The scanner carries the count along and meets each of the three conditions at another
character.  They are compared by `closes_cons_iff`, which says for the grammar what a character does
to the count.

From `scan_eq_ok_iff` follows everything that is said of successes, without another look at the
scanner.  Of a failure only the place is said: it is within the text.
-/

set_option autoImplicit false

namespace JvmWeave

open Text

/-! ## Classes -/

/-- Text inside of `depth` open brackets that closes them all.  Semicolons stand inside only. -/
structure Closes (depth : Nat) (text : List Char) : Prop where
  notBelow : ∀ before, before <+: text → before.count '>' ≤ depth + before.count '<'
  total : text.count '>' = depth + text.count '<'
  semicolon : ∀ before, before ++ [';'] <+: text → before.count '>' < depth + before.count '<'

/-- How many brackets are open behind a character. -/
def depthAfter (depth : Nat) (c : Char) : Nat :=
  if c = '<' then depth + 1 else if c = '>' then depth - 1 else depth

theorem closes_nil_iff {depth : Nat} : Closes depth [] ↔ depth = 0 := by
  constructor
  · intro h
    simpa using h.total.symm
  · rintro rfl
    refine ⟨?_, rfl, ?_⟩ <;> simp

theorem closes_cons_iff {depth : Nat} {c : Char} {cs : List Char} :
    Closes depth (c :: cs) ↔ (c = '>' ∨ c = ';' → 0 < depth) ∧ Closes (depthAfter depth c) cs := by
  have hcount (before : List Char) (hc : c = '>' → 0 < depth) :
      (before.count '>' ≤ depthAfter depth c + before.count '<' ↔
        (c :: before).count '>' ≤ depth + (c :: before).count '<') ∧
      (before.count '>' < depthAfter depth c + before.count '<' ↔
        (c :: before).count '>' < depth + (c :: before).count '<') ∧
      (before.count '>' = depthAfter depth c + before.count '<' ↔
        (c :: before).count '>' = depth + (c :: before).count '<') := by
    simp only [List.count_cons, depthAfter, beq_iff_eq]
    by_cases ho : c = '<'
    · subst ho
      simp
      omega
    · by_cases he : c = '>'
      · have := hc he
        subst he
        simp
        omega
      · simp [ho, he]
  constructor
  · intro h
    have hc : c = '>' → 0 < depth := by
      rintro rfl
      have hle := h.notBelow ['>'] (by simp)
      simpa [Nat.succ_le_iff] using hle
    refine ⟨?_, ?_, ?_, ?_⟩
    · rintro (he | rfl)
      · exact hc he
      · simpa using h.semicolon [] (by simp)
    · intro before hb
      exact (hcount before hc).1.mpr (h.notBelow _ (by simpa using hb))
    · exact (hcount cs hc).2.2.mpr h.total
    · intro before hb
      exact (hcount before hc).2.1.mpr (h.semicolon _ (by simpa using hb))
  · rintro ⟨hc, h⟩
    have hclose : c = '>' → 0 < depth := fun he => hc (.inl he)
    refine ⟨?_, ?_, ?_⟩
    · intro before hb
      cases before with
      | nil => simp
      | cons d before =>
        obtain ⟨rfl, htail⟩ := List.cons_prefix_cons.mp hb
        exact (hcount before hclose).1.mp (h.notBelow before htail)
    · exact (hcount cs hclose).2.2.mp h.total
    · intro before hb
      cases before with
      | nil =>
        obtain ⟨rfl, -⟩ := List.cons_prefix_cons.mp hb
        simpa using hc (.inr rfl)
      | cons d before =>
        obtain ⟨rfl, htail⟩ := List.cons_prefix_cons.mp hb
        exact (hcount before hclose).2.1.mp (h.semicolon before htail)

/-- What stands between the `L` and the semicolon of a class. -/
def IsClassBody : Dialect → List Char → Prop
  | .descriptor, body => ';' ∉ body ∧ '<' ∉ body ∧ '>' ∉ body
  | .signature, body => Closes 0 body

/-- The texts that are one type. -/
inductive IsToken (dialect : Dialect) : List Char → Prop
  | primitive (p : Primitive) : IsToken dialect [p.letter]
  | typeVariable (hd : dialect = .signature) {name : List Char} (hn : ';' ∉ name) :
    IsToken dialect ('T' :: (name ++ [';']))
  | classType {body : List Char} (hb : IsClassBody dialect body) :
    IsToken dialect ('L' :: (body ++ [';']))
  | array {token : List Char} (h : IsToken dialect token) : IsToken dialect ('[' :: token)

namespace Token

theorem Scan.cons_eq_ok {c : Char} {s : Scan} {result : List Char × List Char} :
    Scan.cons c s = .ok result ↔
      ∃ token rest, s = .ok (token, rest) ∧ result = (c :: token, rest) := by
  cases s with
  | error e => simp [Scan.cons]
  | ok r =>
    obtain ⟨token, rest⟩ := r
    constructor
    · intro h
      exact ⟨token, rest, rfl, (Except.ok.inj h).symm⟩
    · rintro ⟨_, _, hs, rfl⟩
      cases hs
      rfl

theorem Scan.cons_eq_error {c : Char} {s : Scan} {offset : Nat} {flaw : TokenFlaw} :
    Scan.cons c s = .error (offset, flaw) ↔
      ∃ inner, s = .error (inner, flaw) ∧ offset = c.utf8Size + inner := by
  cases s with
  | error e =>
    obtain ⟨inner, f⟩ := e
    simp only [Scan.cons, Except.error.injEq, Prod.mk.injEq]
    constructor
    · rintro ⟨rfl, rfl⟩
      exact ⟨inner, ⟨rfl, rfl⟩, rfl⟩
    · rintro ⟨_, ⟨rfl, rfl⟩, rfl⟩
      exact ⟨rfl, rfl⟩
  | ok r => simp [Scan.cons]

/-! ## What the scanner takes -/

theorem scanVariable_eq_ok_iff {text token rest : List Char} :
    scanVariable text = .ok (token, rest) ↔
      ∃ name, ';' ∉ name ∧ token = name ++ [';'] ∧ text = token ++ rest := by
  constructor
  · intro h
    induction text generalizing token with
    | nil => cases h
    | cons c cs ih =>
      rw [scanVariable] at h
      split at h
      · next hc =>
        cases h
        exact ⟨[], by simp, rfl, by simp [hc]⟩
      · next hc =>
        obtain ⟨inner, after, hs, he⟩ := Scan.cons_eq_ok.mp h
        cases he
        obtain ⟨name, hn, rfl, rfl⟩ := ih hs
        exact ⟨c :: name, by simp [hn, Ne.symm hc], rfl, rfl⟩
  · rintro ⟨name, hn, rfl, rfl⟩
    induction name with
    | nil => simp [scanVariable]
    | cons c name ih =>
      obtain ⟨hc, hn⟩ := not_or.mp (mt List.mem_cons.mpr hn)
      rw [List.cons_append, List.cons_append, scanVariable, if_neg (Ne.symm hc), ih hn]
      rfl

/-- A character that neither ends the class nor is refused in it is passed. -/
theorem scanClass_cons {dialect : Dialect} {depth : Nat} {c : Char} (cs : List Char)
    (hc : c = '>' ∨ c = ';' → 0 < depth) (hd : dialect = .descriptor → c ≠ '<') :
    scanClass dialect depth (c :: cs) =
      Scan.cons c (scanClass dialect (depthAfter depth c) cs) := by
  have hend : ¬(c = ';' ∧ depth = 0) := fun he => Nat.ne_of_gt (hc (.inr he.1)) he.2
  rw [scanClass.eq_def, depthAfter]
  dsimp only
  rw [if_neg hend]
  split
  · next ho =>
    cases dialect with
    | descriptor => exact absurd ho (hd rfl)
    | signature => rfl
  · split
    · next he =>
      obtain ⟨inner, hi⟩ := Nat.exists_eq_succ_of_ne_zero (Nat.ne_of_gt (hc (.inl he)))
      subst hi
      rfl
    · rfl

theorem scanClass_eq_ok_iff {dialect : Dialect} {depth : Nat} {text token rest : List Char} :
    scanClass dialect depth text = .ok (token, rest) ↔
      ∃ body, Closes depth body ∧ (dialect = .descriptor → '<' ∉ body) ∧ token = body ++ [';'] ∧
        text = token ++ rest := by
  constructor
  · intro h
    induction text generalizing depth token with
    | nil => cases h
    | cons c cs ih =>
      by_cases hend : c = ';' ∧ depth = 0
      · obtain ⟨rfl, rfl⟩ := hend
        cases h
        exact ⟨[], closes_nil_iff.mpr rfl, by simp, rfl, rfl⟩
      · by_cases hclose : c = '>' ∧ depth = 0
        · obtain ⟨rfl, rfl⟩ := hclose
          cases h
        · by_cases hopen : dialect = .descriptor ∧ c = '<'
          · obtain ⟨rfl, rfl⟩ := hopen
            cases h
          · have hc : c = '>' ∨ c = ';' → 0 < depth := by
              rintro (he | he)
              · exact Nat.pos_of_ne_zero fun hz => hclose ⟨he, hz⟩
              · exact Nat.pos_of_ne_zero fun hz => hend ⟨he, hz⟩
            have hd : dialect = .descriptor → c ≠ '<' := fun hd ho => hopen ⟨hd, ho⟩
            rw [scanClass_cons cs hc hd] at h
            obtain ⟨inner, after, hs, he⟩ := Scan.cons_eq_ok.mp h
            cases he
            obtain ⟨body, hb, hbd, rfl, rfl⟩ := ih hs
            refine ⟨c :: body, closes_cons_iff.mpr ⟨hc, hb⟩, fun he => ?_, rfl, rfl⟩
            exact List.not_mem_cons_of_ne_of_not_mem (hd he).symm (hbd he)
  · rintro ⟨body, hb, hbd, rfl, rfl⟩
    induction body generalizing depth with
    | nil =>
      rw [closes_nil_iff] at hb
      subst hb
      rfl
    | cons c body ih =>
      obtain ⟨hc, hb⟩ := closes_cons_iff.mp hb
      have hd : dialect = .descriptor → c ≠ '<' := fun he hc => hbd he (by simp [hc])
      have hbd : dialect = .descriptor → '<' ∉ body := fun he hm => hbd he (.tail _ hm)
      rw [List.cons_append, List.cons_append, scanClass_cons _ hc hd, ih hb hbd]
      rfl

end Token

/-- In descriptors the brackets match as well, since there are none. -/
theorem isClassBody_iff {dialect : Dialect} {body : List Char} :
    IsClassBody dialect body ↔ Closes 0 body ∧ (dialect = .descriptor → '<' ∉ body) := by
  cases dialect with
  | signature => simp [IsClassBody]
  | descriptor =>
    constructor
    · rintro ⟨hsemi, hopen, hclose⟩
      refine ⟨⟨?_, ?_, ?_⟩, fun _ => hopen⟩
      · intro before hb
        have hnone : '>' ∉ before := fun hm => hclose (hb.subset hm)
        simp [List.count_eq_zero_of_not_mem hnone]
      · simp [List.count_eq_zero_of_not_mem hclose, List.count_eq_zero_of_not_mem hopen]
      · intro before hb
        exact absurd (hb.subset (by simp)) hsemi
    · rintro ⟨⟨-, htotal, hinside⟩, hopen⟩
      have hopen := hopen rfl
      rw [List.count_eq_zero_of_not_mem hopen] at htotal
      refine ⟨fun hm => ?_, hopen, List.count_eq_zero.mp htotal⟩
      -- In front of a semicolon a bracket would have to be open.
      obtain ⟨before, after, rfl⟩ := List.append_of_mem hm
      have hlt := hinside before ⟨after, by simp⟩
      have hnone : '<' ∉ before := fun hm => hopen (List.mem_append_left _ hm)
      simp [List.count_eq_zero_of_not_mem hnone] at hlt

namespace Token

theorem scan_eq_ok_iff {dialect : Dialect} {text token rest : List Char} :
    scan dialect text = .ok (token, rest) ↔ IsToken dialect token ∧ text = token ++ rest := by
  constructor
  · intro h
    induction text generalizing token with
    | nil => cases h
    | cons c cs ih =>
      rw [scan] at h
      split at h
      · next hc =>
        obtain ⟨inner, after, hs, he⟩ := Scan.cons_eq_ok.mp h
        cases he
        obtain ⟨ht, rfl⟩ := ih hs
        exact ⟨hc ▸ .array ht, rfl⟩
      · split at h
        · next hc =>
          obtain ⟨inner, after, hs, he⟩ := Scan.cons_eq_ok.mp h
          cases he
          obtain ⟨body, hb, hbd, rfl, rfl⟩ := scanClass_eq_ok_iff.mp hs
          exact ⟨hc ▸ .classType (isClassBody_iff.mpr ⟨hb, hbd⟩), rfl⟩
        · split at h
          · next hc =>
            obtain ⟨inner, after, hs, he⟩ := Scan.cons_eq_ok.mp h
            cases he
            obtain ⟨name, hn, rfl, rfl⟩ := scanVariable_eq_ok_iff.mp hs
            exact ⟨hc.1 ▸ .typeVariable hc.2 hn, rfl⟩
          · split at h
            · next hp =>
              cases h
              obtain ⟨p, hp⟩ := Option.isSome_iff_exists.mp hp
              rw [← Primitive.ofLetter?_eq_some_iff.mp hp]
              exact ⟨.primitive p, rfl⟩
            · cases h
  · rintro ⟨h, rfl⟩
    induction h with
    | primitive p => cases dialect <;> cases p <;> rfl
    | @typeVariable hd name hn =>
      have hs : scanVariable (name ++ [';'] ++ rest) = .ok (name ++ [';'], rest) :=
        scanVariable_eq_ok_iff.mpr ⟨name, hn, rfl, rfl⟩
      rw [List.cons_append, scan, if_neg (by decide), if_neg (by decide), if_pos ⟨rfl, hd⟩, hs]
      rfl
    | @classType body hb =>
      obtain ⟨hb, hbd⟩ := isClassBody_iff.mp hb
      have hs : scanClass dialect 0 (body ++ [';'] ++ rest) = .ok (body ++ [';'], rest) :=
        scanClass_eq_ok_iff.mpr ⟨body, hb, hbd, rfl, rfl⟩
      rw [List.cons_append, scan, if_neg (by decide), if_pos rfl, hs]
      rfl
    | array _ ih =>
      rw [List.cons_append, scan, if_pos rfl, ih]
      rfl

/-! ## Where a fault is -/

theorem offset_le_of_scanVariable {text : List Char} {offset : Nat} {flaw : TokenFlaw}
    (h : scanVariable text = .error (offset, flaw)) : offset ≤ utf8Length text := by
  induction text generalizing offset with
  | nil => cases h; simp
  | cons c cs ih =>
    rw [scanVariable] at h
    split at h
    · cases h
    · obtain ⟨inner, hs, rfl⟩ := Scan.cons_eq_error.mp h
      have := ih hs
      rw [utf8Length_cons]
      omega

theorem offset_le_of_scanClass {dialect : Dialect} {depth : Nat} {text : List Char} {offset : Nat}
    {flaw : TokenFlaw} (h : scanClass dialect depth text = .error (offset, flaw)) :
    offset ≤ utf8Length text := by
  induction text generalizing depth offset with
  | nil => cases h; simp
  | cons c cs ih =>
    have hstep {inner : Nat}
        (h : Scan.cons c (scanClass dialect inner cs) = .error (offset, flaw)) :
        offset ≤ utf8Length (c :: cs) := by
      obtain ⟨inner, hs, rfl⟩ := Scan.cons_eq_error.mp h
      have := ih hs
      rw [utf8Length_cons]
      omega
    unfold scanClass at h
    split at h
    · cases h
    · split at h
      · split at h
        · cases h
          simp
        · exact hstep h
      · split at h
        · split at h
          · cases h
            simp
          · exact hstep h
        · exact hstep h

theorem offset_le_of_scan {dialect : Dialect} {text : List Char} {offset : Nat} {flaw : TokenFlaw}
    (h : scan dialect text = .error (offset, flaw)) : offset ≤ utf8Length text := by
  induction text generalizing offset with
  | nil => cases h; simp
  | cons c cs ih =>
    have hstep {s : Scan} (hs : ∀ inner, s = .error (inner, flaw) → inner ≤ utf8Length cs)
        (h : Scan.cons c s = .error (offset, flaw)) : offset ≤ utf8Length (c :: cs) := by
      obtain ⟨inner, he, rfl⟩ := Scan.cons_eq_error.mp h
      have := hs inner he
      rw [utf8Length_cons]
      omega
    rw [scan] at h
    split at h
    · exact hstep (fun _ => ih) h
    · split at h
      · exact hstep (fun _ => offset_le_of_scanClass) h
      · split at h
        · exact hstep (fun _ => offset_le_of_scanVariable) h
        · split at h
          · cases h
          · cases h
            simp

end Token

theorem readToken_eq_ok_iff {dialect : Dialect} {text token rest : List Char} :
    readToken dialect text = .ok (token, rest) ↔ IsToken dialect token ∧ text = token ++ rest :=
  readToken_eq_ok.trans Token.scan_eq_ok_iff

theorem IsToken.eq_of_prefix {dialect : Dialect} {text a b : List Char} (ha : IsToken dialect a)
    (hb : IsToken dialect b) (hat : a <+: text) (hbt : b <+: text) : a = b := by
  obtain ⟨restA, hat⟩ := hat
  obtain ⟨restB, hbt⟩ := hbt
  have hsa := Token.scan_eq_ok_iff.mpr ⟨ha, hat.symm⟩
  have hsb := Token.scan_eq_ok_iff.mpr ⟨hb, hbt.symm⟩
  cases hsa.symm.trans hsb
  rfl

theorem IsToken.signature {token : List Char} (h : IsToken .descriptor token) :
    IsToken .signature token := by
  induction h with
  | primitive p => exact .primitive p
  | typeVariable hd => cases hd
  | classType hb => exact .classType (isClassBody_iff.mpr ⟨(isClassBody_iff.mp hb).1, nofun⟩)
  | array _ ih => exact .array ih

theorem IsToken.exists_cons {dialect : Dialect} {token : List Char} (h : IsToken dialect token) :
    ∃ c cs, token = c :: cs ∧ c ≠ '*' ∧ c ≠ '+' ∧ c ≠ '-' := by
  cases h with
  | primitive p =>
    refine ⟨p.letter, [], rfl, ?_⟩
    cases p <;> decide
  | typeVariable => exact ⟨'T', _, rfl, by decide⟩
  | classType => exact ⟨'L', _, rfl, by decide⟩
  | array => exact ⟨'[', _, rfl, by decide⟩

/-! ## Type arguments -/

namespace Argument

def map {α β : Type} (f : α → β) : Argument α → Argument β
  | any => any
  | just type => just (f type)
  | subtypesOf type => subtypesOf (f type)
  | supertypesOf type => supertypesOf (f type)

/-- The argument as it is written around the token of its type. -/
def text : Argument (List Char) → List Char
  | any => ['*']
  | just token => token
  | subtypesOf token => '+' :: token
  | supertypesOf token => '-' :: token

/-- The type of the argument is a token. -/
def IsComplete (a : Argument (List Char)) : Prop :=
  ∀ token ∈ a.type?, IsToken .signature token

/-- A complete argument is read off the front of whatever it starts. -/
theorem IsComplete.readArgumentToken {a : Argument (List Char)} (h : a.IsComplete)
    (rest : List Char) : readArgumentToken (a.text ++ rest) = .ok (a.text, rest) := by
  have hread {token : List Char} (ht : a.type? = some token) :
      readToken .signature (token ++ rest) = .ok (token, rest) :=
    readToken_eq_ok_iff.mpr ⟨h token ht, rfl⟩
  cases a with
  | any => rfl
  | just token =>
    obtain ⟨c, cs, hc, hstar, hplus, hminus⟩ := (h token rfl).exists_cons
    have hr := hread rfl
    unfold text
    rw [hc] at hr ⊢
    rw [List.cons_append, JvmWeave.readArgumentToken, if_neg hstar,
      if_neg (not_or.mpr ⟨hplus, hminus⟩)]
    exact hr
  | subtypesOf token =>
    unfold text
    rw [List.cons_append, JvmWeave.readArgumentToken, if_neg (by decide), if_pos (.inl rfl),
      hread rfl]
  | supertypesOf token =>
    unfold text
    rw [List.cons_append, JvmWeave.readArgumentToken, if_neg (by decide), if_pos (.inr rfl),
      hread rfl]

/-- Complete arguments that are written one after another are read one by one. -/
theorem argumentTokens_flatMap {as : List (Argument (List Char))} (h : ∀ a ∈ as, a.IsComplete) :
    argumentTokens (as.flatMap text) = as.map text := by
  induction as with
  | nil =>
    rw [argumentTokens]
    rfl
  | cons a as ih =>
    obtain ⟨ha, has⟩ := List.forall_mem_cons.mp h
    have hr := ha.readArgumentToken (as.flatMap text)
    have hne : a.text ++ as.flatMap text ≠ [] := fun hnil =>
      readArgumentToken_ne_nil hr (List.append_eq_nil_iff.mp hnil).1
    rw [List.flatMap_cons, argumentTokens, if_neg hne]
    split
    · next e he => cases hr.symm.trans he
    · next token rest he =>
      cases hr.symm.trans he
      rw [List.map_cons, ih has]

end Argument

/-! ## Reading at a place in the input -/

theorem readType_eq_ok_iff {dialect : Dialect} {before after : List Char} {token : String} :
    readType dialect (String.ofList (before ++ after)) (utf8Length before) = .ok token ↔
      IsToken dialect token.toList ∧ token.toList <+: after := by
  unfold readType
  rw [String.toList_ofList, dropUtf8_utf8Length_append]
  constructor
  · intro h
    split at h
    · next inner rest hr =>
      cases h
      obtain ⟨ht, rfl⟩ := readToken_eq_ok_iff.mp hr
      rw [String.toList_ofList]
      exact ⟨ht, rest, rfl⟩
    · cases h
  · rintro ⟨ht, rest, rfl⟩
    rw [readToken_eq_ok_iff.mpr ⟨ht, rfl⟩]
    exact congrArg Except.ok String.ofList_toList

theorem eq_of_readType_eq_error {dialect : Dialect} {before after : List Char} {e : Malformed}
    (h : readType dialect (String.ofList (before ++ after)) (utf8Length before) = .error e) :
    e.dialect = dialect ∧ e.input = String.ofList (before ++ after) ∧
      utf8Length before ≤ e.offset ∧ e.offset ≤ utf8Length (before ++ after) := by
  unfold readType at h
  rw [String.toList_ofList, dropUtf8_utf8Length_append] at h
  split at h
  · cases h
  · next fault hr =>
    cases h
    unfold readToken at hr
    split at hr
    · cases hr
    · next offset flaw hs =>
      cases hr
      have hle := Token.offset_le_of_scan hs
      refine ⟨rfl, rfl, Nat.le_add_right _ _, ?_⟩
      rw [utf8Length_append]
      exact Nat.add_le_add_left hle _

/-- At each place in an input a type is read exactly if one stands there, and then it is the only
one. -/
theorem readType_accepts_tokens (dialect : Dialect) (before after : List Char) :
    let input := String.ofList (before ++ after)
    let position := utf8Length before
    (∀ token : String, readType dialect input position = .ok token ↔
      IsToken dialect token.toList ∧ token.toList <+: after) ∧
    (∀ a b : List Char, IsToken dialect a → a <+: after → IsToken dialect b → b <+: after → a = b) ∧
    ((¬∃ token, IsToken dialect token ∧ token <+: after) ↔
      ∃ e, readType dialect input position = .error e ∧ e.dialect = dialect ∧
        position ≤ e.offset ∧ e.offset ≤ utf8Length input.toList) ∧
    (∀ token : String, readType .descriptor input position = .ok token →
      readType .signature input position = .ok token) := by
  refine ⟨fun _ => readType_eq_ok_iff, fun a b ha hat hb hbt => ha.eq_of_prefix hb hat hbt, ?_, ?_⟩
  · rw [String.toList_ofList]
    constructor
    · intro hnone
      cases h : readType dialect (String.ofList (before ++ after)) (utf8Length before) with
      | ok token => exact absurd ⟨_, readType_eq_ok_iff.mp h⟩ hnone
      | error e =>
        obtain ⟨hd, -, hlo, hhi⟩ := eq_of_readType_eq_error h
        exact ⟨e, rfl, hd, hlo, hhi⟩
    · rintro ⟨e, he, -⟩ ⟨token, ht, hp⟩
      have hok : readType dialect (String.ofList (before ++ after)) (utf8Length before) =
          .ok (String.ofList token) := by
        refine readType_eq_ok_iff.mpr ?_
        rw [String.toList_ofList]
        exact ⟨ht, hp⟩
      cases he.symm.trans hok
  · intro token h
    obtain ⟨ht, hp⟩ := readType_eq_ok_iff.mp h
    exact readType_eq_ok_iff.mpr ⟨ht.signature, hp⟩

end JvmWeave
