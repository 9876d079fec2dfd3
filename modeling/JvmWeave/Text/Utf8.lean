/-!
# Byte offsets in text

Positions reported to a caller count the UTF-8 bytes in front of a character, while all readers work
on lists of characters.  Two functions relate the two views: `utf8Length` measures a piece of text
and `dropUtf8` finds what is left at an offset.

`dropUtf8` is total.  An offset inside of a character counts as the end of that character, and
nothing is left at or beyond the end of the text.
-/

set_option autoImplicit false

namespace JvmWeave.Text

/-- The number of bytes that the characters take in UTF-8. -/
def utf8Length : List Char → Nat
  | [] => 0
  | c :: cs => c.utf8Size + utf8Length cs

/-- What is left of the text from byte `offset` on.  Nothing is left at or beyond the end. -/
def dropUtf8 : Nat → List Char → List Char
  | 0, cs => cs
  | _ + 1, [] => []
  | offset + 1, c :: cs => dropUtf8 (offset + 1 - c.utf8Size) cs

@[simp] theorem utf8Length_nil : utf8Length [] = 0 := rfl

@[simp] theorem utf8Length_cons (c : Char) (cs : List Char) :
    utf8Length (c :: cs) = c.utf8Size + utf8Length cs := rfl

@[simp] theorem utf8Length_append (a b : List Char) :
    utf8Length (a ++ b) = utf8Length a + utf8Length b := by
  induction a with
  | nil => simp
  | cons c cs ih => simp [ih, Nat.add_assoc]

@[simp] theorem dropUtf8_zero (cs : List Char) : dropUtf8 0 cs = cs := by
  cases cs <;> rfl

/-- The offset of a piece of text is the length of what stands before it. -/
theorem dropUtf8_utf8Length_append (a b : List Char) : dropUtf8 (utf8Length a) (a ++ b) = b := by
  induction a with
  | nil => simp
  | cons c cs ih =>
    have pos : 0 < c.utf8Size := c.utf8Size_pos
    rw [utf8Length_cons, List.cons_append]
    obtain ⟨n, hn⟩ : ∃ n, c.utf8Size + utf8Length cs = n + 1 := ⟨_, (Nat.succ_pred (by omega)).symm⟩
    rw [hn, dropUtf8, ← hn, Nat.add_sub_cancel_left, ih]

end JvmWeave.Text
