import Octet.Text.Blank

/-!
# Tokens

The operands of an instruction are written one after another, separated by commas and blanks.
Between single quotes a comma or a blank is an ordinary character, so that `','` and `' '` can be
written as operands. A quote opens or closes: what counts at a character is the parity of the
quotes before it, and a quote that is never closed reaches to the end of the text.

`tokens` is the list of the maximal runs of characters that do not separate.
-/

namespace Octet

/-- A word of an assembly text. -/
abbrev Token := List Char

namespace Assembly

/-- The character around literal text. -/
def quote : Char := '\''

/-- Whether the text after a character is quoted, given whether the character itself is. -/
def quotedAfter (quoted : Bool) (c : Char) : Bool :=
  if c = quote then !quoted else quoted

/-- Whether a character separates operands. -/
def separates (quoted : Bool) (c : Char) : Bool :=
  !quoted && (c == ',' || Text.isBlank c)

/-- Puts a run of characters in front, unless it is empty. -/
def consRun (run : Token) (later : List Token) : List Token :=
  if run.isEmpty then later else run :: later

/-- The run of characters that the text starts with, possibly empty, and the tokens after it. -/
def runs (quoted : Bool) : List Char → Token × List Token
  | [] => ([], [])
  | c :: cs =>
    let (run, later) := runs (quotedAfter quoted c) cs
    if separates quoted c then ([], consRun run later) else (c :: run, later)

/-- The operands in a text: its maximal runs of characters that do not separate. -/
def tokens (cs : List Char) : List Token :=
  let (run, later) := runs false cs
  consRun run later

end Assembly

end Octet
