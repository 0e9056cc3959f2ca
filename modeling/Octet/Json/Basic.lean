/-!
# JSON values

Configurations and snapshots are kept as JSON. A `Json` value stays close to the text that it was
read from: numbers are their digits, and a string is a list of `Piece`s, which are characters or
16-bit units written by number. Two units may have to be taken together to make a character, and
some units make none, so a string has a text (`Json.text?`) only if its units do. Members of an
object keep their order, and a name may occur twice.
-/

namespace Octet

namespace Json

/-- A part of a string. -/
inductive Piece where
  | char (c : Char)
  /-- A 16-bit unit that was written as `\u` and four digits. -/
  | unit (value : Nat)
  deriving DecidableEq

/-- A string. -/
abbrev Pieces := List Piece

/-- The character of two units, a leading and a trailing one. -/
def pairOf (lead trail : Nat) : Char :=
  Char.ofNat (0x10000 + (lead - 0xD800) * 0x400 + (trail - 0xDC00))

/-- The characters of a string, if every leading unit is followed by a trailing one and no trailing
unit stands alone. -/
def text? : Pieces → Option (List Char)
  | [] => some []
  | .char c :: rest => (text? rest).map (c :: ·)
  | .unit u :: rest =>
    if u < 0xD800 ∨ 0xE000 ≤ u then (text? rest).map (Char.ofNat u :: ·)
    else if u < 0xDC00 then
      match rest with
      | .unit v :: rest =>
        if 0xDC00 ≤ v ∧ v < 0xE000 then (text? rest).map (pairOf u v :: ·) else none
      | _ => none
    else none

/-- The string of a text. -/
def pieces (s : String) : Pieces :=
  s.toList.map .char

end Json

/-- A JSON value. -/
inductive Json where
  | null
  | bool (value : Bool)
  /-- A number, as it is written. -/
  | number (written : List Char)
  | string (pieces : Json.Pieces)
  | array (items : List Json)
  | object (members : List (Json.Pieces × Json))

namespace Json

instance : Inhabited Json := ⟨null⟩

/-- A natural number in base ten. -/
def nat (n : Nat) : Json :=
  number (Nat.toDigits 10 n)

/-- A byte as a number. -/
def byte (b : UInt8) : Json :=
  nat b.toNat

/-- A text. -/
def name (s : String) : Json :=
  string (pieces s)

/-- A list of bytes. -/
def bytes (bs : List UInt8) : Json :=
  array (bs.map byte)

/-- An object with the given fields. -/
def record (fields : List (String × Json)) : Json :=
  object (fields.map fun f => (pieces f.1, f.2))

/-- A value under the name of its kind. -/
def tagged (tag : String) (value : Json) : Json :=
  record [(tag, value)]

end Json

end Octet
