import JvmWeave.Text.Blank

/-!
# Access flags

Who may use a declaration, and its modifiers.  A class file keeps them as the bits of one word, and
source writes them as words in any order.

The flags are a set, kept as the bits that it is written as.  Bits that no flag has are dropped on
the way in (`ofBits`), so that two sets with the same flags are the same value and equality needs no
notion of its own.

One table, `keywords`, says which word belongs to which flag and in which order words are written.
Writing, reading and the set of all flags are read off it, so that a flag cannot be written as one
word and read as another.  The flag for what is not present in source stands outside of the table: a
text may ask for it, and no text shows it.

Two operations change who may use a declaration, `atLeastProtected` and `widen`, and both only ever
widen.  They are built on `replace`, which looks for all of `old` and not for a part of it, and
leaves a set alone in which it is not found.  Access without a keyword is the odd case: there is no
flag to take out, and it goes to public at once, since protected would not be a widening for callers
in the same package.
-/

set_option autoImplicit false

namespace JvmWeave

/-- A set of access flags, as class files write them. -/
structure AccessFlags where
  bits : UInt16
  deriving DecidableEq, Repr

/-- A word that is no access flag. -/
structure UnknownAccessWord where
  word : String
  deriving DecidableEq, Repr

def UnknownAccessWord.message (e : UnknownAccessWord) : String :=
  "unknown access string '" ++ e.word ++ "'"

namespace AccessFlags

def none : AccessFlags := ⟨0⟩

def isPublic : AccessFlags := ⟨0x0001⟩

def isPrivate : AccessFlags := ⟨0x0002⟩

/-- Visible in the package and in subclasses. -/
def isProtected : AccessFlags := ⟨0x0004⟩

def isStatic : AccessFlags := ⟨0x0008⟩

def isFinal : AccessFlags := ⟨0x0010⟩

/-- Not present in source. -/
def isSynthetic : AccessFlags := ⟨0x1000⟩

def union (a b : AccessFlags) : AccessFlags := ⟨a.bits ||| b.bits⟩

/-- The flags of the first set that are not in the second. -/
def without (a b : AccessFlags) : AccessFlags := ⟨a.bits &&& ~~~b.bits⟩

/-- Whether all flags of the second set are in the first. -/
def contains (a b : AccessFlags) : Bool := a.bits &&& b.bits = b.bits

def intersects (a b : AccessFlags) : Bool := a.bits &&& b.bits ≠ 0

/-- The flags with a keyword, in the order in which they are written. -/
def keywords : List (AccessFlags × String) :=
  [(isPublic, "public"), (isPrivate, "private"), (isProtected, "protected"), (isStatic, "static"),
    (isFinal, "final")]

def all : AccessFlags :=
  keywords.foldl (fun flags k => flags.union k.1) isSynthetic

/-- The flags among the bits of a number. -/
def ofBits (bits : UInt16) : AccessFlags := ⟨bits &&& all.bits⟩

/-- The set with `old` taken out and `new` put in, or the set itself if it does not contain
`old`. -/
def replace (a old new : AccessFlags) : AccessFlags :=
  if a.contains old then (a.without old).union new else a

/-- Makes a declaration visible at least in subclasses. -/
def atLeastProtected (a : AccessFlags) : AccessFlags :=
  if a.intersects (isPublic.union isProtected) then a
  else if a.contains isPrivate then a.replace isPrivate isProtected
  else a.union isPublic

def widen (a : AccessFlags) (toPublic : Bool) : AccessFlags :=
  let flags := a.atLeastProtected
  if toPublic && flags.contains isProtected then flags.replace isProtected isPublic else flags

/-- Whether no keyword says who may use the declaration. -/
def isPackagePrivate (a : AccessFlags) : Bool :=
  !a.intersects (isPublic.union (isPrivate.union isProtected))

def text (a : AccessFlags) : String :=
  String.intercalate " " ((keywords.filter fun k => a.contains k.1).map Prod.snd)

def ofWord? (word : String) : Option AccessFlags :=
  if word = "synthetic" then some isSynthetic
  else (keywords.find? fun k => k.2 = word).map Prod.fst

def ofWords : List (List Char) → Except UnknownAccessWord AccessFlags
  | [] => .ok none
  | word :: rest =>
    match ofWord? (String.ofList word) with
    | some flag => (ofWords rest).map flag.union
    | Option.none => .error ⟨String.ofList word⟩

/-- The flags that are written as a text, with blanks between the words. -/
def ofString (text : String) : Except UnknownAccessWord AccessFlags :=
  ofWords (Text.words text.toList)

end AccessFlags

end JvmWeave
