import Octet.Assembly.Literal
import Octet.Bank

/-!
# Data lines

A data line fills the data memory from address zero on. It holds either a text between single
quotes, which is stored as the numbers of its characters and a zero after them, or a list of at
most 32 hexadecimal bytes.

`loadData` gives the bank as the line leaves it and, beside it, the number of bytes or what is wrong
with the line. A list is stored value by value as it is read, a text as a whole.
-/

namespace Octet.Assembly

/-- The mnemonic of data lines. -/
def dataMnemonic : Token := ['D', 'A', 'T', 'A']

/-- The most values that a list may have. -/
def listLimit : Nat := 32

/-- The numbers of characters, as far as they fit in a byte. -/
def latinBytes : List Char → Except OperandCause (List UInt8)
  | [] => .ok []
  | c :: cs =>
    if c.toNat < 256 then (latinBytes cs).map (UInt8.ofNat c.toNat :: ·)
    else .error (.wideCharacter c)

/-- The bytes of a text whose opening quote has been read: the characters up to the closing quote,
after which there may be nothing but blanks. -/
def textBytes (quoted : List Char) : Except Cause (List UInt8) :=
  match quoted.dropWhile (· ≠ quote) with
  | [] => .error (.invalidOperand .unterminatedText)
  | _ :: after =>
    let rest := Text.trim after
    if rest.isEmpty then
      match latinBytes (quoted.takeWhile (· ≠ quote)) with
      | .ok bytes => if bytes.length < 256 then .ok bytes else .error (.textTooLong bytes.length)
      | .error cause => .error (.invalidOperand cause)
    else .error (.invalidOperand (.textAfterQuote rest))

/-- Stores a text and a zero after it. -/
def loadText (bank : Bank) (quoted : List Char) : Bank × Except Cause Nat :=
  match textBytes quoted with
  | .ok bytes =>
    ((bank.writeBytes 0 bytes).write (UInt8.ofNat bytes.length) 0, .ok (bytes.length + 1))
  | .error cause => (bank, .error cause)

/-- Stores the values of a list from the given address on. -/
def loadList (bank : Bank) (address : Nat) : List Token → Bank × Except Cause Nat
  | [] => (bank, .ok address)
  | token :: rest =>
    match hexByte token with
    | .ok value =>
      if address < listLimit then
        loadList (bank.write (UInt8.ofNat address) value) (address + 1) rest
      else (bank, .error .listTooLong)
    | .error cause => (bank, .error (.invalidOperand cause))

/-- Stores what a data line holds: the bank that it leaves, and the number of bytes or what is
wrong. -/
def loadData (bank : Bank) (operands : List Char) : Bank × Except Cause Nat :=
  match operands with
  | [] => loadList bank 0 []
  | c :: rest => if c = quote then loadText bank rest else loadList bank 0 (tokens operands)

end Octet.Assembly
