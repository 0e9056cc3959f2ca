import Octet.Json.Basic
import Octet.Text.Numeral

/-!
# JSON tokens

Between a JSON text and its value stand tokens: brackets, colons, commas, strings and words. A word
is a run of characters that are none of the others, so numbers and the three names are words;
whether a word means anything is not asked here.

* `scan` — the tokens of a text;
* `Token.render` — the text of a token;
* `compact`, `pretty` — two ways to write tokens down, without blanks and with one line for each
  item.
-/

namespace Octet.Json

/-- A token of a JSON text. -/
inductive Token where
  | openArray
  | closeArray
  | openObject
  | closeObject
  | colon
  | comma
  | string (pieces : Pieces)
  | word (cs : List Char)
  deriving DecidableEq

/-- Whether a character may stand between tokens. -/
def isGap (c : Char) : Bool :=
  c == ' ' || c == '\t' || c == '\n' || c == '\r'

/-! ## Reading -/

/-- What the characters read last belong to. What has been read of it is kept in reverse. -/
inductive Scanner where
  | between
  | word (read : List Char)
  | string (read : Pieces)
  /-- After a backslash in a string. -/
  | escape (read : Pieces)
  /-- In the digits of a unit; so many digits with this value have been read. -/
  | unit (read : Pieces) (count value : Nat)

/-- The token that is a single character. -/
def mark? (c : Char) : Option Token :=
  if c = '[' then some .openArray
  else if c = ']' then some .closeArray
  else if c = '\x7b' then some .openObject
  else if c = '\x7d' then some .closeObject
  else if c = ':' then some .colon
  else if c = ',' then some .comma
  else none

/-- What a character after a backslash stands for. -/
def escaped? (c : Char) : Option Char :=
  if c = '"' ∨ c = '\\' ∨ c = '/' then some c
  else if c = 'b' then some '\x08'
  else if c = 'f' then some '\x0c'
  else if c = 'n' then some '\n'
  else if c = 'r' then some '\r'
  else if c = 't' then some '\t'
  else none

/-- Whether a character goes on with a word. -/
def inWord (c : Char) : Bool :=
  !isGap c && (mark? c).isNone && c != '"'

/-- Reads a character that belongs to nothing before it. -/
def Scanner.start (c : Char) : List Token × Scanner :=
  if isGap c then ([], .between)
  else
    match mark? c with
    | some token => ([token], .between)
    | none => if c = '"' then ([], .string []) else ([], .word [c])

/-- Reads a character: the tokens that are complete now, and where the next character stands. -/
def Scanner.read (c : Char) : Scanner → Option (List Token × Scanner)
  | between => some (start c)
  | word read =>
    if inWord c then some ([], word (c :: read))
    else
      let (tokens, next) := start c
      some (.word read.reverse :: tokens, next)
  | string read =>
    if c = '"' then some ([.string read.reverse], between)
    else if c = '\\' then some ([], escape read)
    else if c.toNat < 32 then none
    else some ([], string (.char c :: read))
  | escape read =>
    if c = 'u' then some ([], unit read 0 0)
    else (escaped? c).map fun e => ([], string (.char e :: read))
  | unit read count value =>
    match Text.digitValue? 16 c with
    | some d =>
      let value := value * 16 + d
      if count = 3 then some ([], string (.unit value :: read))
      else some ([], unit read (count + 1) value)
    | none => none

/-- The token that the end of the text completes. -/
def Scanner.finish : Scanner → Option (List Token)
  | between => some []
  | word read => some [.word read.reverse]
  | string _ => none
  | escape _ => none
  | unit .. => none

/-- The tokens of a text that goes on from a scanner. -/
def Scanner.scan (s : Scanner) : List Char → Option (List Token)
  | [] => s.finish
  | c :: cs =>
    match s.read c with
    | some (tokens, next) => (next.scan cs).map (tokens ++ ·)
    | none => none

/-- The tokens of a text. -/
def scan (cs : List Char) : Option (List Token) :=
  Scanner.between.scan cs

/-! ## Writing -/

/-- Four hexadecimal digits. -/
def unitDigits (n : Nat) : List Char :=
  [Text.hexDigit (n / 4096), Text.hexDigit (n / 256), Text.hexDigit (n / 16), Text.hexDigit n]

/-- A part of a string. Quotes, backslashes and control characters are escaped. -/
def Piece.render : Piece → List Char
  | char c =>
    if c = '"' then ['\\', '"']
    else if c = '\\' then ['\\', '\\']
    else if c.toNat < 32 then '\\' :: 'u' :: unitDigits c.toNat
    else [c]
  | unit value => '\\' :: 'u' :: unitDigits value

/-- The text of a token. -/
def Token.render : Token → List Char
  | openArray => ['[']
  | closeArray => [']']
  | openObject => ['\x7b']
  | closeObject => ['\x7d']
  | colon => [':']
  | comma => [',']
  | string pieces => '"' :: (pieces.flatMap (·.render) ++ ['"'])
  | word cs => cs

/-- The tokens one after another. -/
def compact (tokens : List Token) : List Char :=
  tokens.flatMap (·.render)

/-- The start of a new line at the given depth. -/
def newLine (depth : Nat) : List Char :=
  '\n' :: List.replicate (2 * depth) ' '

/-- The tokens with every item on a line of its own; `fresh` says whether a bracket has just been
opened. Brackets with nothing between them stay together. -/
def prettyFrom (depth : Nat) (fresh : Bool) : List Token → List Char
  | [] => []
  | token :: rest =>
    match token with
    | .comma => ',' :: (newLine depth ++ prettyFrom depth false rest)
    | .colon => ':' :: ' ' :: prettyFrom depth false rest
    | .closeArray | .closeObject =>
      (if fresh then [] else newLine (depth - 1)) ++ token.render
        ++ prettyFrom (depth - 1) false rest
    | .openArray | .openObject =>
      (if fresh then newLine depth else []) ++ token.render ++ prettyFrom (depth + 1) true rest
    | .string _ | .word _ =>
      (if fresh then newLine depth else []) ++ token.render ++ prettyFrom depth false rest

/-- The tokens with every item on a line of its own. -/
def pretty (tokens : List Token) : List Char :=
  prettyFrom 0 false tokens

end Octet.Json
