import JvmWeave.Proofs.MethodReading

/-!
# Lists of tokens

A text is cut into tokens in at most one way, and a cursor gives the same tokens one at a time.
What a cursor has given since it was last restarted is followed through every sequence of calls.

The invariant is `Session.Follows`: the tokens that were given make up the text in front of the
cursor, and the cursor has failed exactly if it gave a fault.  A call keeps it, with one lemma for
each way in which a call can end.  Part of it is a total that no call changes: what was given since
the last restart, together with what the cursor still gives, is all that the text gives.

What a cursor gives to the end is compared with `splitTypes` by induction on the list of tokens, or
of those in front of the first fault, whose offset is then counted from the start of the input.
-/

set_option autoImplicit false

namespace JvmWeave

open Text

/-! ## All at once -/

/-- In a signature, no token at all is no list. -/
theorem splitTypes_join {dialect : Dialect} {tokens : List String}
    (h : ∀ token ∈ tokens, IsToken dialect token.toList) :
    splitTypes dialect (String.join tokens) =
      .ok (if dialect = .signature ∧ tokens = [] then none else some tokens) := by
  have hread : readTokens dialect (String.join tokens).toList =
      .ok (tokens.map String.toList) := by
    apply readTokens_eq_ok_iff.mpr
    rw [List.forall_mem_map, String.toList_join, List.flatMap_def]
    exact ⟨h, rfl⟩
  have hmap : (tokens.map String.toList).map String.ofList = tokens := by simp
  unfold splitTypes
  simp only [hread, hmap, List.map_eq_nil_iff]
  split <;> rfl

theorem join_of_splitTypes {dialect : Dialect} {input : String} {found : Option (List String)}
    (h : splitTypes dialect input = .ok found) : String.join (found.getD []) = input := by
  have hget : (splitTypes dialect input).map (·.getD []) = .ok (found.getD []) := by
    rw [h]
    rfl
  obtain ⟨-, hinput⟩ := MethodType.splitTypes_eq_ok_iff.mp hget
  rw [← String.toList_inj, String.toList_join, hinput]

namespace TokenCursor

variable {dialect : Dialect} {input : String}

/-! ## One call -/

theorem next_of_stopped {c : TokenCursor} (h : c.failed = true ∨ c.remaining = []) :
    c.next = (none, c) := by
  unfold next
  rw [if_pos h]

theorem next_of_token {c : TokenCursor} {token rest : List Char} (hf : c.failed = false)
    (h : readToken c.dialect c.remaining = .ok (token, rest)) :
    c.next = (some (.ok (String.ofList token)),
      { c with consumed := c.consumed ++ token, remaining := rest }) := by
  have hne : c.remaining ≠ [] := by
    rw [(readToken_eq_ok_iff.mp h).2]
    simp [readToken_ne_nil h]
  unfold next
  rw [if_neg (by simp [hf, hne]), h]

theorem next_of_fault {c : TokenCursor} {e : TokenError} (hf : c.failed = false)
    (hne : c.remaining ≠ []) (h : readToken c.dialect c.remaining = .error e) :
    c.next = (some (.error (e.within c.dialect c.input c.position)),
      { c with failed := true }) := by
  unfold next
  rw [if_neg (by simp [hf, hne]), h]

theorem eq_of_next_eq_none {c d : TokenCursor} (h : c.next = (none, d)) : d = c := by
  unfold next at h
  split at h
  · cases h
    rfl
  · split at h <;> cases h

theorem toList_of_next {c d : TokenCursor} {given : Option (Except Malformed String)}
    (h : c.next = (given, d)) : c.toList = given.toList ++ d.toList := by
  cases given with
  | none =>
    rw [eq_of_next_eq_none h]
    rfl
  | some first =>
    rw [toList.eq_def c]
    split
    · next he => cases h.symm.trans he
    · next he =>
      cases h.symm.trans he
      rfl

theorem toList_of_stopped {c : TokenCursor} (h : c.failed = true ∨ c.remaining = []) :
    c.toList = [] := by
  rw [toList, next_of_stopped h]

/-! ## To the end -/

theorem toList_of_readTokens {c : TokenCursor} {tokens : List (List Char)} (hf : c.failed = false)
    (h : readTokens c.dialect c.remaining = .ok tokens) :
    c.toList = (tokens.map String.ofList).map .ok := by
  obtain ⟨htokens, hremaining⟩ := readTokens_eq_ok_iff.mp h
  clear h
  induction tokens generalizing c with
  | nil => exact toList_of_stopped (.inr hremaining)
  | cons token tokens ih =>
    obtain ⟨ht, htokens⟩ := List.forall_mem_cons.mp htokens
    have hread : readToken c.dialect c.remaining = .ok (token, tokens.flatten) :=
      readToken_eq_ok_iff.mpr ⟨ht, hremaining⟩
    have hrest := ih
      (c := { c with consumed := c.consumed ++ token, remaining := tokens.flatten }) hf htokens rfl
    rw [toList_of_next (next_of_token hf hread), hrest]
    rfl

/-- The fault is that of the whole text, counted from the start of the input. -/
theorem toList_of_readTokens_error {c : TokenCursor} {e : TokenError} (hf : c.failed = false)
    (h : readTokens c.dialect c.remaining = .error e) :
    ∃ tokens : List String,
      c.toList = tokens.map .ok ++ [.error (e.within c.dialect c.input c.position)] := by
  generalize ht : c.remaining = text at h
  generalize hd : c.dialect = dialect at h
  fun_induction readTokens dialect text generalizing c e with
  | case1 => cases h
  | case2 text hne fault hread =>
    cases h
    subst ht hd
    refine ⟨[], ?_⟩
    rw [toList_of_next (next_of_fault hf hne hread), toList_of_stopped (.inl rfl)]
    rfl
  | case3 text _ token rest hread fault _ ih =>
    cases h
    subst ht hd
    obtain ⟨tokens, htokens⟩ := ih
      (c := { c with consumed := c.consumed ++ token, remaining := rest }) hf rfl rfl ‹_›
    refine ⟨String.ofList token :: tokens, ?_⟩
    rw [toList_of_next (next_of_token hf hread), htokens]
    have hinput : c.consumed ++ token ++ rest = c.consumed ++ c.remaining := by
      rw [List.append_assoc, readToken_append hread]
    simp [TokenError.within, TokenCursor.input, position, hinput, Nat.add_assoc]
  | case4 => cases h

theorem toList_ofString_of_ok {found : Option (List String)}
    (h : splitTypes dialect input = .ok found) :
    (ofString dialect input).toList = (found.getD []).map .ok := by
  unfold splitTypes at h
  split at h
  · cases h
  · next tokens hread =>
    rw [toList_of_readTokens rfl hread]
    split at h
    · next hnil =>
      cases h
      rw [hnil.2]
      rfl
    · cases h
      rfl

theorem toList_ofString_of_error {e : Malformed} (h : splitTypes dialect input = .error e) :
    ∃ tokens : List String, (ofString dialect input).toList = tokens.map .ok ++ [.error e] := by
  unfold splitTypes at h
  split at h
  · next fault hread =>
    cases h
    obtain ⟨tokens, htokens⟩ := toList_of_readTokens_error (c := ofString dialect input) rfl hread
    refine ⟨tokens, ?_⟩
    rw [htokens]
    simp [ofString, TokenCursor.input, position]
  · split at h <;> cases h

/-! ## Calls in any order -/

/-- What can be asked of a cursor. -/
inductive Call where
  | next
  | restart
  deriving DecidableEq, Repr

/-- A cursor in use, with what it gave since it was last at the start. -/
structure Session where
  cursor : TokenCursor
  given : List (Except Malformed String)
  deriving DecidableEq

namespace Session

def start (dialect : Dialect) (input : String) : Session :=
  ⟨ofString dialect input, []⟩

def call (s : Session) : Call → Session
  | .next => ⟨s.cursor.next.2, s.given ++ s.cursor.next.1.toList⟩
  | .restart => ⟨s.cursor.restart, []⟩

def run (s : Session) (calls : List Call) : Session :=
  calls.foldl call s

/-- What was given is the tokens in front of the cursor, and the fault if it met one. -/
structure Follows (dialect : Dialect) (input : String) (s : Session) (tokens : List String)
    (fault : Option Malformed) : Prop where
  sameDialect : s.cursor.dialect = dialect
  isToken : ∀ token ∈ tokens, IsToken dialect token.toList
  consumed : s.cursor.consumed = (String.join tokens).toList
  whole : s.cursor.consumed ++ s.cursor.remaining = input.toList
  failed : s.cursor.failed = fault.isSome
  given : s.given = tokens.map .ok ++ (fault.map .error).toList
  total : s.given ++ s.cursor.toList = (ofString dialect input).toList

theorem follows_start (dialect : Dialect) (input : String) :
    (start dialect input).Follows dialect input [] none where
  sameDialect := rfl
  isToken := by simp
  consumed := rfl
  whole := rfl
  failed := rfl
  given := rfl
  total := rfl

variable {s : Session} {tokens : List String} {fault : Option Malformed}

theorem total_call_next (s : Session) :
    (s.call .next).given ++ (s.call .next).cursor.toList = s.given ++ s.cursor.toList := by
  have hnext : s.cursor.toList = s.cursor.next.1.toList ++ s.cursor.next.2.toList :=
    toList_of_next rfl
  rw [hnext]
  exact List.append_assoc _ _ _

theorem call_next_of_stopped (h : s.cursor.failed = true ∨ s.cursor.remaining = []) :
    s.call .next = s := by
  simp [call, next_of_stopped h]

theorem Follows.call_restart (h : s.Follows dialect input tokens fault) :
    s.call .restart = start dialect input := by
  simp [call, restart, start, ofString, h.sameDialect, h.whole]

theorem Follows.call_next_of_token (h : s.Follows dialect input tokens none)
    {token rest : List Char}
    (hread : readToken s.cursor.dialect s.cursor.remaining = .ok (token, rest)) :
    (s.call .next).Follows dialect input (tokens ++ [String.ofList token]) none := by
  obtain ⟨ht, hremaining⟩ := readToken_eq_ok_iff.mp hread
  have hgiven : s.given = tokens.map .ok := by simpa using h.given
  have hcall : s.call .next =
      ⟨{ s.cursor with consumed := s.cursor.consumed ++ token, remaining := rest },
        s.given ++ [.ok (String.ofList token)]⟩ := by
    simp [call, next_of_token h.failed hread]
  have htotal := (total_call_next s).trans h.total
  rw [hcall] at htotal ⊢
  refine ⟨h.sameDialect, ?_, ?_, ?_, h.failed, ?_, htotal⟩
  · intro other hother
    rcases List.mem_append.mp hother with hother | hother
    · exact h.isToken other hother
    · rw [List.mem_singleton.mp hother, ← h.sameDialect, String.toList_ofList]
      exact ht
  · simp [h.consumed]
  · rw [← h.whole, hremaining, List.append_assoc]
  · simp [hgiven]

theorem Follows.call_next_of_fault (h : s.Follows dialect input tokens none) {e : TokenError}
    (hne : s.cursor.remaining ≠ [])
    (hread : readToken s.cursor.dialect s.cursor.remaining = .error e) :
    (s.call .next).Follows dialect input tokens
      (some (e.within s.cursor.dialect s.cursor.input s.cursor.position)) := by
  have hgiven : s.given = tokens.map .ok := by simpa using h.given
  have hcall : s.call .next = ⟨{ s.cursor with failed := true },
      s.given ++ [.error (e.within s.cursor.dialect s.cursor.input s.cursor.position)]⟩ := by
    simp [call, next_of_fault h.failed hne hread]
  have htotal := (total_call_next s).trans h.total
  rw [hcall] at htotal ⊢
  refine ⟨h.sameDialect, h.isToken, h.consumed, h.whole, rfl, ?_, htotal⟩
  rw [hgiven]
  rfl

theorem Follows.call_next (h : s.Follows dialect input tokens fault) :
    ∃ tokens fault, (s.call .next).Follows dialect input tokens fault := by
  by_cases hstop : s.cursor.failed = true ∨ s.cursor.remaining = []
  · rw [call_next_of_stopped hstop]
    exact ⟨tokens, fault, h⟩
  · obtain ⟨hf, hne⟩ := not_or.mp hstop
    obtain rfl : fault = none := by simpa [h.failed] using hf
    cases hread : readToken s.cursor.dialect s.cursor.remaining with
    | ok result => exact ⟨_, _, h.call_next_of_token hread⟩
    | error e => exact ⟨_, _, h.call_next_of_fault hne hread⟩

theorem Follows.run (h : s.Follows dialect input tokens fault) (calls : List Call) :
    ∃ tokens fault, (s.run calls).Follows dialect input tokens fault := by
  induction calls generalizing s tokens fault with
  | nil => exact ⟨tokens, fault, h⟩
  | cons c calls ih =>
    cases c with
    | next =>
      obtain ⟨tokens, fault, h⟩ := h.call_next
      exact ih h
    | restart =>
      have hstart := ih (follows_start dialect input)
      rwa [← h.call_restart] at hstart

theorem run_of_failed (h : s.cursor.failed = true) {calls : List Call} (hc : .restart ∉ calls) :
    s.run calls = s := by
  induction calls with
  | nil => rfl
  | cons c calls ih =>
    cases c with
    | next =>
      rw [run, List.foldl_cons, call_next_of_stopped (.inl h)]
      exact ih (List.not_mem_of_not_mem_cons hc)
    | restart => simp at hc

end Session

/-- A text is cut into at most one list of tokens.  Whatever is asked of a cursor on it, what it
gave since the last restart is the beginning of what it gives to the end, and that is this list or
the same fault. -/
theorem splitTypes_and_cursor (dialect : Dialect) (input : String) (calls : List Call) :
    let s := (Session.start dialect input).run calls
    (∀ tokens : List String, (∀ token ∈ tokens, IsToken dialect token.toList) →
      splitTypes dialect (String.join tokens) =
        .ok (if dialect = .signature ∧ tokens = [] then none else some tokens)) ∧
    (∀ found, splitTypes dialect input = .ok found →
      String.join (found.getD []) = input ∧
        s.given ++ s.cursor.toList = (found.getD []).map .ok) ∧
    (∀ e, splitTypes dialect input = .error e → ∃ tokens : List String,
      s.given ++ s.cursor.toList = tokens.map .ok ++ [.error e]) ∧
    ∃ (tokens : List String) (fault : Option Malformed),
      s.given = tokens.map .ok ++ (fault.map .error).toList ∧
        String.join tokens ++ s.cursor.remainder = input ∧
        s.cursor.position = utf8Length (String.join tokens).toList ∧
        (fault ≠ none → ∀ more, .restart ∉ more →
          (Session.start dialect input).run (calls ++ more) = s) := by
  obtain ⟨tokens, fault, h⟩ := (Session.follows_start dialect input).run calls
  refine ⟨fun _ => splitTypes_join, ?_, ?_, tokens, fault, h.given, ?_, ?_, ?_⟩
  · intro found hfound
    rw [h.total]
    exact ⟨join_of_splitTypes hfound, toList_ofString_of_ok hfound⟩
  · intro e he
    rw [h.total]
    exact toList_ofString_of_error he
  · rw [← String.toList_inj, String.toList_append, ← h.consumed, remainder, String.toList_ofList]
    exact h.whole
  · unfold position
    rw [h.consumed]
  · intro hfault more hmore
    have hf : ((Session.start dialect input).run calls).cursor.failed = true := by
      rw [h.failed]
      exact Option.isSome_iff_ne_none.mpr hfault
    unfold Session.run at hf ⊢
    rw [List.foldl_append]
    exact Session.run_of_failed hf hmore

theorem splitTypes_and_cursor_variable :
    let calls := [.next, .restart, .next]
    let s := (Session.start .signature "TT;[I").run calls
    (∀ token ∈ ["TT;", "[I"], IsToken .signature token.toList) ∧
      splitTypes .signature "TT;[I" = .ok (some ["TT;", "[I"]) ∧
      s.given ++ s.cursor.toList = [.ok "TT;", .ok "[I"] := by
  intro calls s
  have htokens : ∀ token ∈ ["TT;", "[I"], IsToken .signature token.toList := by
    have hvariable : IsToken .signature ('T' :: (['T'] ++ [';'])) := .typeVariable rfl (by decide)
    have harray : IsToken .signature ['[', 'I'] := .array (.primitive .int)
    simpa using ⟨hvariable, harray⟩
  obtain ⟨hsplit, hlist, -⟩ := splitTypes_and_cursor .signature "TT;[I" calls
  have hfound := hsplit _ htokens
  exact ⟨htokens, hfound, (hlist _ hfound).2⟩

end TokenCursor
end JvmWeave
