/-!
# Blank space

The characters with the Unicode property White_Space, and the ways to remove them from the ends of a
text or to cut a text at them.

Names and type expressions are read from source as people write it, so blanks are skipped by the
property and not by a short list of characters.  The lemmas at the end say that no text grows: they
are what the readers need to recurse on a trimmed part.
-/

set_option autoImplicit false

namespace JvmWeave.Text

/-- Characters with the Unicode property White_Space. -/
def isBlank (c : Char) : Bool :=
  let n := c.toNat
  (9 ≤ n && n ≤ 13) || n == 0x20 || n == 0x85 || n == 0xA0 || n == 0x1680 ||
    (0x2000 ≤ n && n ≤ 0x200A) || n == 0x2028 || n == 0x2029 || n == 0x202F || n == 0x205F ||
    n == 0x3000

def trimStart (cs : List Char) : List Char :=
  cs.dropWhile isBlank

def trimEnd (cs : List Char) : List Char :=
  (cs.reverse.dropWhile isBlank).reverse

def trim (cs : List Char) : List Char :=
  trimEnd (trimStart cs)

/-- Adds a character in front of the words of the text that follows it. -/
def extendWords (c : Char) (rest : List Char) (words : List (List Char)) : List (List Char) :=
  match rest, words with
  | d :: _, word :: words => if isBlank d then [c] :: word :: words else (c :: word) :: words
  | _, words => [c] :: words

/-- The maximal runs of characters that are not blank, in order. -/
def words : List Char → List (List Char)
  | [] => []
  | c :: cs => if isBlank c then words cs else extendWords c cs (words cs)

theorem length_trimStart_le (cs : List Char) : (trimStart cs).length ≤ cs.length :=
  (List.dropWhile_sublist _).length_le

theorem length_trimEnd_le (cs : List Char) : (trimEnd cs).length ≤ cs.length := by
  rw [trimEnd, List.length_reverse]
  exact Nat.le_trans (List.dropWhile_sublist _).length_le (by simp)

theorem length_trim_le (cs : List Char) : (trim cs).length ≤ cs.length :=
  Nat.le_trans (length_trimEnd_le _) (length_trimStart_le _)

end JvmWeave.Text
