/-!
# One-line descriptions

Values are described on one line for a log: a record as its name and its fields between braces,
a list between brackets.
-/

namespace Octet.Text

/-- A record: `Name { field: value, … }`. -/
def record (name : String) (fields : List (String × String)) : String :=
  let body := ", ".intercalate (fields.map fun f => f.1 ++ ": " ++ f.2)
  name ++ " \x7b " ++ body ++ " \x7d"

/-- A list of described values. -/
def list (items : List String) : String :=
  "[" ++ ", ".intercalate items ++ "]"

/-- A text between double quotes. It is used for names only, which hold no character that would
have to be escaped. -/
def quoted (s : String) : String :=
  "\"" ++ s ++ "\""

end Octet.Text
