import Octet.Assembly.Cause
import Octet.Text.Numeral

/-!
# Literals

A byte is written as a character between quotes, as `0x` and hexadecimal digits, or as decimal
digits (`literal`). Where hexadecimal is understood, the mark may be left out (`hexByte`).

Both readers say which of the two things is wrong with a token they refuse: that it is not written
as a number, or that its value is above 255.
-/

namespace Octet.Assembly

/-- The text between the quotes of a character literal. -/
def unquoted? (token : Token) : Option (List Char) :=
  match token with
  | [] => none
  | c :: rest =>
    if c = quote ∧ rest.getLast? = some quote then some rest.dropLast else none

/-- A character between quotes, as its number. Only ASCII characters are bytes. -/
def character (token : Token) : Except OperandCause UInt8 :=
  match unquoted? token with
  | some [c] => if c.toNat < 128 then .ok (UInt8.ofNat c.toNat) else .error (.notAscii c)
  | _ => .error (.malformedCharacter token)

/-- The largest number that literals are read up to before their value is looked at. -/
def numberBound : Nat := Nat.pow 2 32

/-- A character, a hexadecimal number with its mark, or a decimal number. -/
def literal (token : Token) : Except OperandCause UInt8 :=
  if token.head? = some quote then character token
  else
    let value? := match Text.afterHexMark? token with
      | some digits => Text.unsigned? 16 numberBound digits
      | none => Text.unsigned? 10 numberBound token
    match value? with
    | some v => if v < 256 then .ok (UInt8.ofNat v) else .error (.valueTooLarge v)
    | none => .error (.notNumber token)

/-- A hexadecimal number, with or without its mark. -/
def hexByte (token : Token) : Except OperandCause UInt8 :=
  let digits := (Text.afterHexMark? token).getD token
  match Text.numeral? 16 digits with
  | some v => if v < 256 then .ok (UInt8.ofNat v) else .error (.hexByteTooLarge token)
  | none => .error (.notHexByte token)

end Octet.Assembly
