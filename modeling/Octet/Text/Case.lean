/-!
# Letter case

Mnemonics and names of registers may be written in either case. Only the ASCII letters have a
case here: `'é'` and `'É'` stay different.
-/

namespace Octet.Text

/-- The text with every ASCII letter in upper case. -/
def upper (cs : List Char) : List Char :=
  cs.map Char.toUpper

/-- Whether two texts differ at most in the case of ASCII letters. -/
def sameLetters (a b : List Char) : Bool :=
  upper a == upper b

theorem length_upper (cs : List Char) : (upper cs).length = cs.length := by
  simp [upper]

end Octet.Text
