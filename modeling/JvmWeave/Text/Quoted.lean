import JvmWeave.Text.Combining
import JvmWeave.Text.Unprintable

/-!
# Quoted text

A character is written as itself unless the reader could not tell it from the quote or could not see
it: then it is written with a backslash.  Characters without a letter of their own are written as
`\u{…}` with their code point in lower-case hexadecimal digits.

Of the two quotes only the one that is around the text needs a backslash.  Everything else is the
same in texts and in single characters.
-/

set_option autoImplicit false

namespace JvmWeave.Text

def hexDigits (n : Nat) : List Char :=
  Nat.toDigits 16 n

/-- A character by its code point. -/
def escapeCodePoint (c : Char) : List Char :=
  ['\\', 'u', '\x7b'] ++ hexDigits c.toNat ++ ['\x7d']

/-- The character as it is written between two `quote` characters. -/
def escapeChar (quote c : Char) : List Char :=
  if c = '\x00' then ['\\', '0']
  else if c = '\t' then ['\\', 't']
  else if c = '\r' then ['\\', 'r']
  else if c = '\n' then ['\\', 'n']
  else if c = '\\' then ['\\', '\\']
  else if c = quote then ['\\', quote]
  else if isCombining c || isUnprintable c then escapeCodePoint c
  else [c]

def quoted (s : String) : String :=
  String.ofList ('"' :: (s.toList.flatMap (escapeChar '"') ++ ['"']))

/-- The character between single quotes. -/
def quotedChar (c : Char) : String :=
  String.ofList ('\'' :: (escapeChar '\'' c ++ ['\'']))

end JvmWeave.Text
