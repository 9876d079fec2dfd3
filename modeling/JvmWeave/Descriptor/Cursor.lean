import JvmWeave.Descriptor.Token

/-!
# Lists of types written one after another

Types are written without separators: where one token ends the next one starts.  There are two
readers for such a text.  `splitTypes` cuts a whole one, and a `TokenCursor` hands out its tokens
one at a time.  Both rest on `readToken`, and both end since each token leaves a shorter text.

A cursor keeps the text on both sides of it.  Only the side behind it matters to `next`.  The other
one is there because the cursor can be restarted, and because a fault is reported with the whole
input and its offset in it.  With both sides in the structure the offset is their border, so it
cannot disagree with what is left to read.

A cursor stops for good at the first malformed token.  The flag is needed for that, since the text
of the malformed token is not consumed, and without it the same fault would come out forever.

In a signature, no token at all is told apart from a list of tokens.
-/

set_option autoImplicit false

namespace JvmWeave

open Text

/-- The tokens of the text, or the first fault with its offset. -/
def readTokens (dialect : Dialect) (text : List Char) : Except TokenError (List (List Char)) :=
  if text = [] then .ok []
  else
    match _h : readToken dialect text with
    | .error e => .error e
    | .ok (token, rest) =>
      match readTokens dialect rest with
      | .error e => .error ⟨utf8Length token + e.offset, e.fault⟩
      | .ok tokens => .ok (token :: tokens)
termination_by text.length
decreasing_by exact readToken_length_lt _h

/-- The tokens of a whole input.  In a signature, no token at all is told apart from a list. -/
def splitTypes (dialect : Dialect) (input : String) : Except Malformed (Option (List String)) :=
  match readTokens dialect input.toList with
  | .error e => .error (e.within dialect input 0)
  | .ok tokens =>
    if dialect = .signature ∧ tokens = [] then .ok none
    else .ok (some (tokens.map String.ofList))

/-- A place between two tokens of an input. -/
structure TokenCursor where
  dialect : Dialect
  /-- The text in front of the cursor. -/
  consumed : List Char
  /-- The text behind the cursor. -/
  remaining : List Char
  /-- Whether the last token asked for was malformed. -/
  failed : Bool
  deriving DecidableEq, Repr

namespace TokenCursor

def ofString (dialect : Dialect) (input : String) : TokenCursor :=
  ⟨dialect, [], input.toList, false⟩

/-- The whole input. -/
def input (c : TokenCursor) : String :=
  String.ofList (c.consumed ++ c.remaining)

/-- The byte offset of the next token. -/
def position (c : TokenCursor) : Nat :=
  utf8Length c.consumed

def remainder (c : TokenCursor) : String :=
  String.ofList c.remaining

/-- The cursor back at the start of its input. -/
def restart (c : TokenCursor) : TokenCursor :=
  ⟨c.dialect, [], c.consumed ++ c.remaining, false⟩

/-- The next token and the cursor behind it.  Nothing comes after the end of the input or after a
malformed token. -/
def next (c : TokenCursor) : Option (Except Malformed String) × TokenCursor :=
  if c.failed ∨ c.remaining = [] then (none, c)
  else
    match readToken c.dialect c.remaining with
    | .ok (token, rest) =>
      (some (.ok (String.ofList token)),
        { c with consumed := c.consumed ++ token, remaining := rest })
    | .error e => (some (.error (e.within c.dialect c.input c.position)), { c with failed := true })

/-- How much a cursor can still produce. -/
def pending (c : TokenCursor) : Nat :=
  if c.failed then 0 else c.remaining.length

theorem next_pending_lt {c d : TokenCursor} {r : Except Malformed String}
    (h : c.next = (some r, d)) : d.pending < c.pending := by
  rw [next] at h
  split at h
  · cases h
  · next hc =>
    obtain ⟨hf, hr⟩ := not_or.1 hc
    have pos : 0 < c.remaining.length := List.length_pos_iff.2 hr
    split at h
    · next token rest ht =>
      cases h
      have := readToken_length_lt ht
      simpa [pending, hf] using this
    · cases h
      simpa [pending, hf] using pos

def toList (c : TokenCursor) : List (Except Malformed String) :=
  match _h : c.next with
  | (none, _) => []
  | (some r, d) => r :: d.toList
termination_by c.pending
decreasing_by exact next_pending_lt _h

end TokenCursor

end JvmWeave
