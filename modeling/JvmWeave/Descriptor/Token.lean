import JvmWeave.Descriptor.Fault
import JvmWeave.Primitive
import JvmWeave.Text.Utf8

/-!
# Tokens of written types

A token is one type: any number of `[`, then a primitive letter, a class `L…;` or, in signatures, a
type variable `T…;`.  A class in a signature may hold type arguments between `<` and `>`, and a
semicolon ends it only outside of them.

The grammar is checked no further than that.  What stands between the brackets is skipped by
counting them, and the name of a class may be anything, or nothing.  Where the token ends is all
that has to be known here: the same scanner serves single types, lists of types, method types and
type arguments, and each of these looks into a token later if it has to.

`scan` recurses on the text and reports a flaw by the number of bytes before it.  What the flaw
amounts to as a `Fault` depends on the text from the start of the token, which the recursion no
longer has, so `readToken` turns the one into the other at the top.  Likewise `within` moves an
offset from the token to the whole input.  A fault is located by adding up distances, and no
function has to be told where it is.

Offsets count bytes, since the input is addressed by byte offsets from outside.  The text itself is
a list of characters, and `dropUtf8` goes from one to the other.

`readToken_append` says that nothing is lost, `readToken_ne_nil` that something is read.  By the
second a list of tokens can be read until its text is empty.
-/

set_option autoImplicit false

namespace JvmWeave

open Text

inductive TokenFlaw where
  | unterminated
  | angleInDescriptor
  | unbalancedAngle
  | unexpected (found : Char)
  | incomplete
  deriving DecidableEq, Repr

/-- A fault and how many bytes stand before it. -/
structure TokenError where
  offset : Nat
  fault : Fault
  deriving DecidableEq, Repr

namespace Token

/-- A token and what follows it, or a flaw and the bytes before it. -/
abbrev Scan := Except (Nat × TokenFlaw) (List Char × List Char)

def Scan.cons (c : Char) : Scan → Scan
  | .ok (token, rest) => .ok (c :: token, rest)
  | .error (offset, flaw) => .error (c.utf8Size + offset, flaw)

/-- The rest of a type variable, up to its semicolon. -/
def scanVariable : List Char → Scan
  | [] => .error (0, .unterminated)
  | c :: cs => if c = ';' then .ok ([';'], cs) else .cons c (scanVariable cs)

/-- The rest of a class inside of `depth` open angle brackets, up to its semicolon. -/
def scanClass (dialect : Dialect) : Nat → List Char → Scan
  | _, [] => .error (0, .unterminated)
  | depth, c :: cs =>
    if c = ';' ∧ depth = 0 then .ok ([';'], cs)
    else if c = '<' then
      match dialect with
      | .descriptor => .error (0, .angleInDescriptor)
      | .signature => .cons c (scanClass dialect (depth + 1) cs)
    else if c = '>' then
      match depth with
      | 0 => .error (0, .unbalancedAngle)
      | depth + 1 => .cons c (scanClass dialect depth cs)
    else .cons c (scanClass dialect depth cs)

/-- One token off the front of the text. -/
def scan (dialect : Dialect) : List Char → Scan
  | [] => .error (0, .incomplete)
  | c :: cs =>
    if c = '[' then .cons c (scan dialect cs)
    else if c = 'L' then .cons c (scanClass dialect 0 cs)
    else if c = 'T' ∧ dialect = .signature then .cons c (scanVariable cs)
    else if (Primitive.ofLetter? c).isSome then .ok ([c], cs)
    else .error (0, .unexpected c)

def faultOf (text : List Char) : TokenFlaw → Fault
  | .unterminated => .missingTerminator (String.ofList text)
  | .angleInDescriptor => .angleInDescriptor
  | .unbalancedAngle => .unbalancedAngle
  | .unexpected found => .unexpectedCharacter found (String.ofList (text.takeWhile (· = '[')))
  | .incomplete => .endOfInput

end Token

/-- One token off the front of the text, and what follows it. -/
def readToken (dialect : Dialect) (text : List Char) :
    Except TokenError (List Char × List Char) :=
  match Token.scan dialect text with
  | .ok result => .ok result
  | .error (offset, flaw) => .error ⟨offset, Token.faultOf text flaw⟩

/-- One type argument off the front of the text: `*`, or a type that may have `+` or `-` before
it. -/
def readArgumentToken : List Char → Except TokenError (List Char × List Char)
  | [] => readToken .signature []
  | c :: cs =>
    if c = '*' then .ok (['*'], cs)
    else if c = '+' ∨ c = '-' then
      match readToken .signature cs with
      | .ok (token, rest) => .ok (c :: token, rest)
      | .error e => .error ⟨1 + e.offset, e.fault⟩
    else readToken .signature (c :: cs)

/-- Places a token's fault in the whole input, where the token starts at `position`. -/
def TokenError.within (dialect : Dialect) (input : String) (position : Nat) (e : TokenError) :
    Malformed :=
  ⟨dialect, input, position + e.offset, e.fault⟩

def readType (dialect : Dialect) (input : String) (position : Nat) : Except Malformed String :=
  match readToken dialect (dropUtf8 position input.toList) with
  | .ok (token, _) => .ok (String.ofList token)
  | .error e => .error (e.within dialect input position)

def readTypeArgument (input : String) (position : Nat) : Except Malformed String :=
  match readArgumentToken (dropUtf8 position input.toList) with
  | .ok (token, _) => .ok (String.ofList token)
  | .error e => .error (e.within .signature input position)

/-! ## Nothing is lost -/

namespace Token

theorem scanVariable_append {text token rest : List Char}
    (h : scanVariable text = .ok (token, rest)) : token ++ rest = text := by
  induction text generalizing token with
  | nil => cases h
  | cons c cs ih =>
    rw [scanVariable] at h
    split at h
    · next hc => cases h; simp [hc]
    · cases hs : scanVariable cs with
      | error e => rw [hs] at h; cases h
      | ok r => rw [hs] at h; cases h; simp [ih hs]

theorem scanClass_append {dialect : Dialect} {depth : Nat} {text token rest : List Char}
    (h : scanClass dialect depth text = .ok (token, rest)) : token ++ rest = text := by
  induction text generalizing token depth with
  | nil => cases h
  | cons c cs ih =>
    have step {d : Nat} (h : Scan.cons c (scanClass dialect d cs) = .ok (token, rest)) :
        token ++ rest = c :: cs := by
      cases hs : scanClass dialect d cs with
      | error e => rw [hs] at h; cases h
      | ok r => rw [hs] at h; cases h; simp [ih hs]
    unfold scanClass at h
    split at h
    · next hc => cases h; simp [hc.1]
    · split at h
      · split at h
        · cases h
        · exact step h
      · split at h
        · split at h
          · cases h
          · exact step h
        · exact step h

theorem scan_append {dialect : Dialect} {text token rest : List Char}
    (h : scan dialect text = .ok (token, rest)) : token ++ rest = text := by
  induction text generalizing token with
  | nil => cases h
  | cons c cs ih =>
    rw [scan] at h
    split at h
    · cases hs : scan dialect cs with
      | error e => rw [hs] at h; cases h
      | ok r => rw [hs] at h; cases h; simp [ih hs]
    · split at h
      · cases hs : scanClass dialect 0 cs with
        | error e => rw [hs] at h; cases h
        | ok r => rw [hs] at h; cases h; simp [scanClass_append hs]
      · split at h
        · cases hs : scanVariable cs with
          | error e => rw [hs] at h; cases h
          | ok r => rw [hs] at h; cases h; simp [scanVariable_append hs]
        · split at h
          · cases h; rfl
          · cases h

theorem scan_ne_nil {dialect : Dialect} {text token rest : List Char}
    (h : scan dialect text = .ok (token, rest)) : token ≠ [] := by
  have cons {c : Char} {s : Scan} (h : Scan.cons c s = .ok (token, rest)) : token ≠ [] := by
    cases s with
    | error e => cases h
    | ok r => cases h; simp
  cases text with
  | nil => cases h
  | cons c cs =>
    rw [scan] at h
    split at h
    · exact cons h
    · split at h
      · exact cons h
      · split at h
        · exact cons h
        · split at h
          · cases h; simp
          · cases h

end Token

theorem readToken_eq_ok {dialect : Dialect} {text : List Char} {r : List Char × List Char} :
    readToken dialect text = .ok r ↔ Token.scan dialect text = .ok r := by
  rw [readToken]
  split
  · next h => rw [h]; simp
  · next h => rw [h]; simp

theorem readToken_append {dialect : Dialect} {text token rest : List Char}
    (h : readToken dialect text = .ok (token, rest)) : token ++ rest = text :=
  Token.scan_append (readToken_eq_ok.1 h)

theorem readToken_ne_nil {dialect : Dialect} {text token rest : List Char}
    (h : readToken dialect text = .ok (token, rest)) : token ≠ [] :=
  Token.scan_ne_nil (readToken_eq_ok.1 h)

/-- What follows a token is shorter than the text. -/
theorem readToken_length_lt {dialect : Dialect} {text token rest : List Char}
    (h : readToken dialect text = .ok (token, rest)) : rest.length < text.length := by
  have total := congrArg List.length (readToken_append h)
  have pos := List.length_pos_iff.2 (readToken_ne_nil h)
  rw [List.length_append] at total
  omega

theorem readArgumentToken_append {text token rest : List Char}
    (h : readArgumentToken text = .ok (token, rest)) : token ++ rest = text := by
  cases text with
  | nil => exact @readToken_append .signature [] token rest h
  | cons c cs =>
    rw [readArgumentToken] at h
    split at h
    · next hc => cases h; simp [hc]
    · split at h
      · cases hs : readToken .signature cs with
        | error e => rw [hs] at h; cases h
        | ok r => rw [hs] at h; cases h; simp [readToken_append hs]
      · exact readToken_append h

theorem readArgumentToken_ne_nil {text token rest : List Char}
    (h : readArgumentToken text = .ok (token, rest)) : token ≠ [] := by
  cases text with
  | nil => exact @readToken_ne_nil .signature [] token rest h
  | cons c cs =>
    rw [readArgumentToken] at h
    split at h
    · cases h; simp
    · split at h
      · cases hs : readToken .signature cs with
        | error e => rw [hs] at h; cases h
        | ok r => rw [hs] at h; cases h; simp
      · exact readToken_ne_nil h

theorem readArgumentToken_length_lt {text token rest : List Char}
    (h : readArgumentToken text = .ok (token, rest)) : rest.length < text.length := by
  have total := congrArg List.length (readArgumentToken_append h)
  have pos := List.length_pos_iff.2 (readArgumentToken_ne_nil h)
  rw [List.length_append] at total
  omega

end JvmWeave
