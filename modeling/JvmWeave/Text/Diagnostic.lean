import JvmWeave.Text.Quoted

/-!
# Values in diagnostics

The notation in which values are shown in diagnostics: records `Name { field: value }`, options
`Some(value)` and `None`, lists `[a, b]`, dictionaries and tagged values `Tag(value)`.

A value that is shown brings its own text, and the functions here only put texts together.  What is
a text to begin with has to be quoted by the one who shows it, but for the keys of a dictionary,
which are always texts.
-/

set_option autoImplicit false

namespace JvmWeave.Text.Diagnostic

def commaSeparated (items : List String) : String :=
  String.intercalate ", " items

/-- A value with a tag in front. -/
def tagged (tag value : String) : String :=
  tag ++ "(" ++ value ++ ")"

def option (value : Option String) : String :=
  match value with
  | none => "None"
  | some value => tagged "Some" value

def list (items : List String) : String :=
  "[" ++ commaSeparated items ++ "]"

/-- A record with its fields in order. -/
def record (name : String) (fields : List (String × String)) : String :=
  name ++ " \x7b " ++ commaSeparated (fields.map fun (field, value) => field ++ ": " ++ value) ++
    " \x7d"

/-- A dictionary from texts to values. -/
def dictionary (entries : List (String × String)) : String :=
  "\x7b" ++ commaSeparated (entries.map fun (key, value) => quoted key ++ ": " ++ value) ++ "\x7d"

def texts (items : List String) : String :=
  list (items.map quoted)

end JvmWeave.Text.Diagnostic
