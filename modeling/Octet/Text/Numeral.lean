/-!
# Numerals

Reading numbers in base ten and sixteen, and writing bytes as two hexadecimal digits.
-/

namespace Octet.Text

/-! ## Reading -/

/-- The value of a digit: ten digits and six letters in either case, as far as the base goes. -/
def digitValue? (base : Nat) (c : Char) : Option Nat :=
  let value? :=
    if '0' ≤ c ∧ c ≤ '9' then some (c.toNat - '0'.toNat)
    else if 'a' ≤ c ∧ c ≤ 'f' then some (c.toNat - 'a'.toNat + 10)
    else if 'A' ≤ c ∧ c ≤ 'F' then some (c.toNat - 'A'.toNat + 10)
    else none
  value?.filter (· < base)

/-- The value of the digits that follow a number already read. -/
def digitsValue? (base : Nat) (read : Nat) : List Char → Option Nat
  | [] => some read
  | c :: cs =>
    match digitValue? base c with
    | some d => digitsValue? base (read * base + d) cs
    | none => none

/-- The value of a non-empty run of digits, of any length. -/
def numeral? (base : Nat) : List Char → Option Nat
  | [] => none
  | c :: cs => digitsValue? base 0 (c :: cs)

/-- A number below `bound`: digits, after at most one plus sign. -/
def unsigned? (base bound : Nat) (cs : List Char) : Option Nat :=
  let digits := match cs with
    | '+' :: rest => rest
    | _ => cs
  (numeral? base digits).filter (· < bound)

/-- What follows a leading `0x` or `0X`, if there is one. -/
def afterHexMark? : List Char → Option (List Char)
  | '0' :: 'x' :: rest => some rest
  | '0' :: 'X' :: rest => some rest
  | _ => none

/-! ## Writing -/

/-- A hexadecimal digit, in lower case. -/
def hexDigit (n : Nat) : Char :=
  Nat.digitChar (n % 16)

/-- Two hexadecimal digits in lower case. -/
def hexLower (b : UInt8) : String :=
  String.ofList [hexDigit (b.toNat / 16), hexDigit (b.toNat % 16)]

/-- Two hexadecimal digits in upper case. -/
def hexUpper (b : UInt8) : String :=
  String.ofList [(hexDigit (b.toNat / 16)).toUpper, (hexDigit (b.toNat % 16)).toUpper]

/-- A byte in base ten. -/
def decimal (b : UInt8) : String :=
  toString b.toNat

/-- The text followed by as many spaces as it takes to reach the width. -/
def padEnd (width : Nat) (s : String) : String :=
  s ++ String.ofList (List.replicate (width - s.length) ' ')

end Octet.Text
