import Octet.Assembly.Resolve
import Octet.Cdc8512.Opcodes
import Octet.Vocabulary

/-!
# The CDC8512: assembling one instruction

The vocabulary gives every mnemonic a `Form`: how many operands it takes, what they are, and the
byte that they are put into. `encode` reads the operands accordingly. The count of the operands is
looked at first, then the operands from left to right.
-/

namespace Octet.Cdc8512

open Assembly (Context Cause)

/-- How the operands of an instruction are written and encoded. -/
inductive Form where
  /-- No operand. -/
  | bare (opcode : UInt8)
  /-- One register. -/
  | onRegister (opcode : UInt8)
  /-- A register and a value. -/
  | withByte (opcode : UInt8)
  /-- The target of a jump. -/
  | jump (opcode : UInt8)
  /-- Two registers, the first one written. -/
  | move (opcode : UInt8)
  deriving DecidableEq

/-- The number of bytes of an instruction. -/
def Form.size : Form → UInt8
  | bare _ => 1
  | onRegister _ => 1
  | withByte _ => 2
  | jump _ => 2
  | move _ => 1

/-- The mnemonics and their forms. -/
def vocabulary : Vocabulary Form :=
  [("HALT", .bare 0x00),
    ("ZERO", .onRegister 0x40),
    ("CMPZ", .onRegister 0x48),
    ("INC", .onRegister 0x50),
    ("DEC", .onRegister 0x58),
    ("MOV", .move 0xC0),
    ("SET", .withByte 0x80),
    ("CMP", .withByte 0x88),
    ("ADD", .withByte 0x90),
    ("SUB", .withByte 0x98),
    ("JE", .jump 0xA0),
    ("JL", .jump 0xA1),
    ("JG", .jump 0xA2),
    ("JP", .jump 0xA3)]

/-- The register that an operand names. -/
def register (name : Token) : Except Cause Reg :=
  Assembly.registerNamed layout name

/-- Encodes the operands of an instruction of the given form. -/
def Form.encode (ctx : Context) (mnemonic : Token) : Form → List Token → Except Cause Code
  | bare opcode, [] => .ok (.one opcode)
  | bare _, operands => .error (.invalidOperand (.wrongCount mnemonic 0 operands.length))
  | onRegister opcode, [r] => do
    let r ← register r
    return .one (opcode ||| r)
  | onRegister _, operands => .error (.invalidOperand (.wrongCount mnemonic 1 operands.length))
  | withByte opcode, [r, value] => do
    let r ← register r
    let value ← ctx.value value
    return .two (opcode ||| r) value
  | withByte _, operands => .error (.invalidOperand (.wrongCount mnemonic 2 operands.length))
  | jump opcode, [target] => do
    let target ← ctx.target target
    return .two opcode target
  | jump _, operands => .error (.invalidOperand (.wrongCount mnemonic 1 operands.length))
  | move opcode, [dst, src] => do
    let dst ← register dst
    let src ← register src
    return .one (opcode ||| dst <<< 3 ||| src)
  | move _, operands => .error (.invalidOperand (.wrongCount mnemonic 2 operands.length))

/-- Encodes an instruction whose mnemonic is written in upper case. -/
def encode (ctx : Context) (mnemonic : Token) (operands : List Token) : Except Cause Code :=
  match vocabulary.form? mnemonic with
  | some form => form.encode ctx mnemonic operands
  | none => .error (.unknownInstruction mnemonic)

end Octet.Cdc8512
