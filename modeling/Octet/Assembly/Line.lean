import Octet.Assembly.Token
import Octet.Text.Case

/-!
# Lines

A source text is a list of lines, numbered from one. A line holds, each of them optional, a label
with a colon, a mnemonic, operands, and a comment from a comment mark to its end. A mark between
single quotes starts no comment. Lines without label and mnemonic do not count.

Lines end at line feeds. A carriage return before a line feed is a blank at the end of a line, and
such blanks are dropped with the others.
-/

namespace Octet.Assembly

/-- What is written on a line, apart from its comment. -/
structure Line where
  /-- The number of the line, from one. -/
  number : Nat
  /-- The label, without its colon. It may be empty. -/
  label : Option Token
  /-- The mnemonic in upper case. -/
  mnemonic : Option Token
  /-- The text after the mnemonic, without blanks at its ends. -/
  operands : List Char
  deriving DecidableEq

/-- The lines of a text. -/
def splitLines : List Char → List (List Char)
  | [] => [[]]
  | c :: cs =>
    if c = '\n' then [] :: splitLines cs
    else
      match splitLines cs with
      | [] => [[c]]
      | l :: ls => (c :: l) :: ls

/-- The part of a line before its comment. -/
def beforeComment (marks : List Char) (quoted : Bool) : List Char → List Char
  | [] => []
  | c :: cs =>
    if !quoted && marks.contains c then []
    else c :: beforeComment marks (quotedAfter quoted c) cs

/-- The name that a word declares as a label: what stands before a colon at its end. -/
def labelOf? (word : Token) : Option Token :=
  if word.getLast? = some ':' then some word.dropLast else none

/-- The parts of a line that is neither blank nor all comment. `code` has no blanks at its ends. -/
def Line.ofCode (number : Nat) (code : List Char) : Line :=
  let (first, rest) := Text.splitWord code
  let label := labelOf? first
  let body := if label.isSome then rest else code
  let (mnemonic, operands) := Text.splitWord body
  { number, label, operands
    mnemonic := if mnemonic.isEmpty then none else some (Text.upper mnemonic) }

/-- The parts of a line, if there is anything on it besides a comment. -/
def Line.read? (marks : List Char) (number : Nat) (raw : List Char) : Option Line :=
  let code := Text.trim (beforeComment marks false raw)
  if code.isEmpty then none else some (.ofCode number code)

/-- The lines of a text that count, numbered from the given number on. -/
def linesFrom (marks : List Char) (number : Nat) : List (List Char) → List Line
  | [] => []
  | raw :: rest =>
    match Line.read? marks number raw with
    | some line => line :: linesFrom marks (number + 1) rest
    | none => linesFrom marks (number + 1) rest

/-- The lines of a source text that count. -/
def lines (marks : List Char) (source : List Char) : List Line :=
  linesFrom marks 1 (splitLines source)

end Octet.Assembly
