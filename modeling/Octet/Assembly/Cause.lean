import Octet.Assembly.Token
import Octet.Registers

/-!
# What can be wrong with an assembly text

A `Diagnostic` is a line number and a `Cause`. Causes say what was found; the wording of each is in
`Cause.message`, with the details of a bad operand in `OperandCause.message`.
-/

namespace Octet.Assembly

/-- The operand of an instruction that addresses its operand in several ways. -/
inductive Operand where
  /-- A value; `hashed` says whether it was marked as one with `#`. -/
  | immediate (value : UInt8) (hashed : Bool)
  /-- The data byte at an address. -/
  | zeroPage (address : UInt8)
  /-- The data byte at an address plus an index register. -/
  | indexed (address : UInt8) (index : Reg)
  deriving DecidableEq

/-- The operand, as it is shown in messages. -/
def Operand.describe : Operand → String
  | immediate value hashed =>
    s!"Imm \x7b value: {value.toNat}, hashed: {hashed} \x7d"
  | zeroPage address => s!"ZeroPage({address.toNat})"
  | indexed address index => s!"Indexed({address.toNat}, {index.toNat})"

/-- What is wrong with the operands of an instruction or of a data line. -/
inductive OperandCause where
  /-- The token is no number, or none below two to the 32. -/
  | notNumber (token : Token)
  | valueTooLarge (value : Nat)
  | malformedCharacter (token : Token)
  | notAscii (c : Char)
  | notHexByte (token : Token)
  | hexByteTooLarge (token : Token)
  /-- A jump target given as a number that is not below the limit. -/
  | targetTooLarge (value : UInt8)
  | unknownRegister (name : Token)
  | wrongCount (mnemonic : Token) (expected got : Nat)
  /-- An instruction that works on a single operand was given none or several. -/
  | notSingle (mnemonic : Token) (got : Nat)
  /-- The instruction was written with a register that it does not work on. -/
  | foreignRegister (mnemonic : Token) (works : String) (written : Token)
  | badIndex
  | unsupported (mnemonic : Token) (operand : Operand)
  | unterminatedText
  | textAfterQuote (rest : List Char)
  /-- A character of a quoted text has a number above 255. -/
  | wideCharacter (c : Char)
  deriving DecidableEq

/-- The wording of a bad operand. -/
def OperandCause.message : OperandCause → String
  | notNumber token => s!"`{String.ofList token}` is not a number"
  | valueTooLarge value => s!"value {value} out of range 0-255"
  | malformedCharacter token => s!"malformed character literal {String.ofList token}"
  | notAscii c => s!"character '{c}' is outside ASCII 0-127"
  | notHexByte token => s!"`{String.ofList token}` is not a hex byte"
  | hexByteTooLarge token => s!"`{String.ofList token}` out of range 0x00-0xFF"
  | targetTooLarge value => s!"jump address {value.toNat} out of range 0-31"
  | unknownRegister name => s!"unknown register `{String.ofList name}`"
  | wrongCount mnemonic expected got =>
    s!"{String.ofList mnemonic} expects {expected} operand(s), got {got}"
  | notSingle mnemonic got => s!"{String.ofList mnemonic} expects 1 operand, got {got}"
  | foreignRegister mnemonic works written =>
    s!"{String.ofList mnemonic} operates on {works}, not {String.ofList written}"
  | badIndex => "index register must be X or Y"
  | unsupported mnemonic operand =>
    s!"{String.ofList mnemonic} does not support {operand.describe} addressing"
  | unterminatedText => "unterminated DATA string"
  | textAfterQuote rest => s!"unexpected `{String.ofList rest}` after DATA string"
  | wideCharacter c => s!"character '{c}' does not fit in a byte"

/-- What is wrong with a line. -/
inductive Cause where
  | unknownInstruction (mnemonic : Token)
  | duplicateLabel (name : Token)
  | emptyLabel
  | undefinedLabel (name : Token)
  | invalidOperand (cause : OperandCause)
  /-- The instructions up to this one take more bytes than a bank has. -/
  | programTooLarge (needed : Nat)
  /-- A quoted text of this many bytes leaves no room for the zero after it. -/
  | textTooLong (length : Nat)
  /-- A data line lists more bytes than it may. -/
  | listTooLong
  /-- The distance to the target of a branch does not fit in a signed byte. -/
  | branchTooFar (offset : Int)
  deriving DecidableEq

/-- The wording of a cause. -/
def Cause.message : Cause → String
  | unknownInstruction mnemonic => s!"unknown instruction `{String.ofList mnemonic}`"
  | duplicateLabel name => s!"duplicate label `{String.ofList name}`"
  | emptyLabel => "empty label name"
  | undefinedLabel name => s!"undefined label `{String.ofList name}`"
  | invalidOperand cause => s!"invalid operand: {cause.message}"
  | programTooLarge needed =>
    s!"program too large: {needed} bytes exceed the 256-byte instruction memory"
  | textTooLong length =>
    s!"data overflow: string of {length} bytes plus terminator exceeds data memory"
  | listTooLong => "data overflow: more than 32 values"
  | branchTooFar offset => s!"branch target too far (offset {offset}, must be -128 to 127)"

/-- A cause and the number of its line, counted from one. -/
structure Diagnostic where
  line : Nat
  cause : Cause
  deriving DecidableEq

/-- The wording of a diagnostic. -/
def Diagnostic.message (d : Diagnostic) : String :=
  s!"line {d.line}: {d.cause.message}"

/-- Diagnostics one below the other. -/
def report (ds : List Diagnostic) : String :=
  "\n".intercalate (ds.map (·.message))

end Octet.Assembly
