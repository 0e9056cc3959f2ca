import Octet.Json.Token

/-!
# JSON values and tokens

`Json.tokens` writes a value as tokens. `ofTokens?` reads one back: it goes over the tokens once,
with a stack of the arrays and objects that are still open, so that its recursion is on the list of
tokens alone. `Json.ofText?` reads a text, and takes nothing but one value with gaps around it.
-/

namespace Octet.Json

/-! ## Writing -/

mutual

/-- The tokens of a value. -/
def tokens : Json → List Token
  | null => [.word "null".toList]
  | bool true => [.word "true".toList]
  | bool false => [.word "false".toList]
  | number written => [.word written]
  | string pieces => [.string pieces]
  | array items => .openArray :: (itemTokens true items ++ [.closeArray])
  | object members => .openObject :: (memberTokens true members ++ [.closeObject])

/-- The tokens of the items of an array, after a comma unless they are the first. -/
def itemTokens (first : Bool) : List Json → List Token
  | [] => []
  | v :: vs => (if first then [] else [.comma]) ++ tokens v ++ itemTokens false vs

/-- The tokens of the members of an object, after a comma unless they are the first. -/
def memberTokens (first : Bool) : List (Pieces × Json) → List Token
  | [] => []
  | (k, v) :: ms =>
    (if first then [] else [.comma]) ++ (.string k :: .colon :: tokens v) ++ memberTokens false ms

end

/-- The value without blanks. -/
def render (v : Json) : String :=
  String.ofList (compact v.tokens)

/-- The value with every item on a line of its own. -/
def renderPretty (v : Json) : String :=
  String.ofList (pretty v.tokens)

/-! ## Words -/

/-- What may follow the digits of a number: nothing or an exponent. -/
def isExponent : List Char → Bool
  | [] => true
  | c :: cs =>
    let digits := match cs with
      | '+' :: rest => rest
      | '-' :: rest => rest
      | _ => cs
    (c == 'e' || c == 'E') && !digits.isEmpty && digits.all Char.isDigit

/-- What may follow the first digits of a number: a fraction, an exponent, both or nothing. -/
def isFraction : List Char → Bool
  | '.' :: cs => (cs.head?.any Char.isDigit) && isExponent (cs.dropWhile Char.isDigit)
  | cs => isExponent cs

/-- Whether a word is a number. -/
def isNumber (cs : List Char) : Bool :=
  let digits := match cs with
    | '-' :: rest => rest
    | _ => cs
  match digits with
  | [] => false
  | c :: rest =>
    if c = '0' then isFraction rest
    else c.isDigit && isFraction (rest.dropWhile Char.isDigit)

/-- The value of a word. -/
def ofWord? (cs : List Char) : Option Json :=
  if cs = "null".toList then some null
  else if cs = "true".toList then some (bool true)
  else if cs = "false".toList then some (bool false)
  else if isNumber cs then some (number cs)
  else none

/-! ## Reading -/

/-- An array or object that is open, with what has been read of it in reverse. -/
inductive Frame where
  | array (read : List Json)
  /-- An object, in the member with this name. -/
  | object (read : List (Pieces × Json)) (name : Pieces)

/-- What may come next. -/
inductive Reader where
  /-- A value. -/
  | value (outer : List Frame)
  /-- A value, or the end of the array that has just been opened. -/
  | item (outer : List Frame)
  /-- The name of a member. -/
  | key (outer : List Frame) (read : List (Pieces × Json))
  /-- The name of a member, or the end of the object that has just been opened. -/
  | member (outer : List Frame)
  /-- The colon after the name of a member. -/
  | colon (outer : List Frame) (read : List (Pieces × Json)) (name : Pieces)
  /-- What follows a complete value: a comma, a closing bracket or the end. -/
  | after (outer : List Frame) (value : Json)

/-- Reads the first token of a value. -/
def Reader.start (outer : List Frame) : Token → Option Reader
  | .openArray => some (item outer)
  | .openObject => some (member outer)
  | .string pieces => some (after outer (.string pieces))
  | .word cs => (ofWord? cs).map (after outer)
  | _ => none

/-- Reads a token. -/
def Reader.read (token : Token) : Reader → Option Reader
  | value outer => start outer token
  | item outer =>
    match token with
    | .closeArray => some (after outer (.array []))
    | _ => start (.array [] :: outer) token
  | key outer read =>
    match token with
    | .string name => some (colon outer read name)
    | _ => none
  | member outer =>
    match token with
    | .closeObject => some (after outer (.object []))
    | .string name => some (colon outer [] name)
    | _ => none
  | colon outer read name =>
    match token with
    | .colon => some (value (.object read name :: outer))
    | _ => none
  | after [] _ => none
  | after (.array read :: outer) v =>
    match token with
    | .comma => some (value (.array (v :: read) :: outer))
    | .closeArray => some (after outer (.array (v :: read).reverse))
    | _ => none
  | after (.object read name :: outer) v =>
    match token with
    | .comma => some (key outer ((name, v) :: read))
    | .closeObject => some (after outer (.object ((name, v) :: read).reverse))
    | _ => none

/-- The value that has been read, if nothing is open. -/
def Reader.finish : Reader → Option Json
  | after [] v => some v
  | _ => none

/-- Reads tokens to their end. -/
def Reader.readAll (r : Reader) : List Token → Option Json
  | [] => r.finish
  | token :: rest =>
    match r.read token with
    | some r => r.readAll rest
    | none => none

/-- The value that the tokens are written for. -/
def ofTokens? (ts : List Token) : Option Json :=
  (Reader.value []).readAll ts

/-- The value of a text. -/
def ofText? (text : String) : Option Json :=
  match scan text.toList with
  | some ts => ofTokens? ts
  | none => none

end Octet.Json
