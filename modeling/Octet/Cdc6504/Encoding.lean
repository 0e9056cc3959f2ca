import Octet.Assembly.Resolve
import Octet.Cdc6504.Opcodes
import Octet.Vocabulary

/-!
# The CDC6504: assembling one instruction

Instructions on data take one operand, which is written in one of several ways:

* `#v` — the value `v`;
* `$hh` — the data byte at a hexadecimal address;
* `$hh,X` or `$hh,Y`, or any value in place of `$hh` — the data byte at an address plus an index;
* `v` — the value `v`, or the data byte at `v` for an instruction that takes no values.

The register that the instruction works on may be written in front (`LDA ACC, #72`).
-/

namespace Octet.Cdc6504

open Assembly (Context Cause Operand)

/-- The opcodes of an instruction for the ways to address its operand. -/
structure Modes where
  immediate : Option UInt8 := none
  zeroPage : Option UInt8 := none
  indexedX : Option UInt8 := none
  indexedY : Option UInt8 := none
  deriving DecidableEq

/-- How the operands of an instruction are written and encoded. -/
inductive Form where
  /-- No operand. -/
  | implied (opcode : UInt8)
  /-- The target of a branch. -/
  | relative (opcode : UInt8)
  /-- The target of a jump. -/
  | absolute (opcode : UInt8)
  /-- An operand for an instruction that works on the given register. -/
  | data (works : Reg) (modes : Modes)
  deriving DecidableEq

/-- The number of bytes of an instruction. -/
def Form.size : Form → UInt8
  | implied _ => 1
  | relative _ => 2
  | absolute _ => 2
  | data .. => 2

/-- The form of an instruction that takes a value or an address without index. -/
def valueForm (works : Reg) (immediate zeroPage : UInt8) : Form :=
  .data works { immediate := some immediate, zeroPage := some zeroPage }

/-- The mnemonics and their forms. -/
def vocabulary : Vocabulary Form :=
  [("BRK", .implied 0x00),
    ("TAX", .implied 0xAA),
    ("TAY", .implied 0xA8),
    ("TXA", .implied 0x8A),
    ("TYA", .implied 0x98),
    ("INX", .implied 0xE8),
    ("INY", .implied 0xC8),
    ("DEX", .implied 0xCA),
    ("DEY", .implied 0x88),
    ("CLX", .implied 0xE2),
    ("CLY", .implied 0xC2),
    ("LDA", .data acc ⟨some 0xA9, some 0xA5, some 0xB5, some 0xB9⟩),
    ("LDX", valueForm x 0xA2 0xA6),
    ("LDY", valueForm y 0xA0 0xA4),
    ("STA", .data acc ⟨none, some 0x85, some 0x95, some 0x99⟩),
    ("STX", .data x ⟨none, some 0x86, none, none⟩),
    ("STY", .data y ⟨none, some 0x84, none, none⟩),
    ("CMP", valueForm acc 0xC9 0xC5),
    ("CPX", valueForm x 0xE0 0xE4),
    ("CPY", valueForm y 0xC0 0xC4),
    ("ADC", valueForm acc 0x69 0x65),
    ("SBC", valueForm acc 0xE9 0xE5),
    ("BEQ", .relative 0xF0),
    ("BNE", .relative 0xD0),
    ("BMI", .relative 0x30),
    ("BPL", .relative 0x10),
    ("BCC", .relative 0x90),
    ("BCS", .relative 0xB0),
    ("JMP", .absolute 0x4C)]

/-! ## Reading the operand -/

/-- The operands without the register that the instruction works on, which may be written in front
of another operand. Any other register there is refused. -/
def dropWorking (mnemonic : Token) (works : Reg) (operands : List Token) :
    Except Cause (List Token) :=
  match operands with
  | first :: second :: rest =>
    match layout.register? first with
    | some r =>
      if r = works then .ok (second :: rest)
      else .error (.invalidOperand (.foreignRegister mnemonic (layout.name works) first))
    | none => .ok operands
  | _ => .ok operands

/-- An operand that is a single token. -/
def single (ctx : Context) (token : Token) : Except Cause Operand :=
  match token with
  | '$' :: digits => do
    let address ← (Assembly.hexByte digits).mapError .invalidOperand
    return .zeroPage address
  | '#' :: value => do
    let value ← ctx.value value
    return .immediate value true
  | _ => do
    let value ← ctx.value token
    return .immediate value false

/-- The address of an indexed operand. -/
def base (ctx : Context) (token : Token) : Except Cause UInt8 :=
  match token with
  | '$' :: digits => (Assembly.hexByte digits).mapError .invalidOperand
  | _ => ctx.value token

/-- The index register that an operand names. -/
def index (name : Token) : Except Cause Reg := do
  let r ← Assembly.registerNamed layout name
  if r = acc then .error (.invalidOperand .badIndex) else return r

/-- The operand of an instruction on data. -/
def operand (ctx : Context) (mnemonic : Token) (works : Reg) (operands : List Token) :
    Except Cause Operand := do
  match ← dropWorking mnemonic works operands with
  | [token] => single ctx token
  | [address, name] =>
    let address ← base ctx address
    let r ← index name
    return .indexed address r
  | rest => .error (.invalidOperand (.notSingle mnemonic rest.length))

/-- The code of an instruction with this operand, if the instruction takes such operands. -/
def Modes.code? (modes : Modes) : Operand → Option Code
  | .immediate value hashed =>
    match modes.immediate with
    | some opcode => some (.two opcode value)
    | none => if hashed then none else modes.zeroPage.map fun opcode => .two opcode value
  | .zeroPage address => modes.zeroPage.map fun opcode => .two opcode address
  | .indexed address r =>
    (if r = x then modes.indexedX else modes.indexedY).map fun opcode => .two opcode address

/-! ## Encoding -/

/-- Encodes the operands of an instruction of the given form. -/
def Form.encode (ctx : Context) (mnemonic : Token) : Form → List Token → Except Cause Code
  | implied opcode, [] => .ok (.one opcode)
  | implied _, operands => .error (.invalidOperand (.wrongCount mnemonic 0 operands.length))
  | relative opcode, [target] => do
    let target ← ctx.target target
    let distance ← ctx.displacement target 2
    return .two opcode distance
  | relative _, operands => .error (.invalidOperand (.wrongCount mnemonic 1 operands.length))
  | absolute opcode, [target] => do
    let target ← ctx.target target
    return .two opcode target
  | absolute _, operands => .error (.invalidOperand (.wrongCount mnemonic 1 operands.length))
  | data works modes, operands => do
    let operand ← operand ctx mnemonic works operands
    match modes.code? operand with
    | some code => return code
    | none => .error (.invalidOperand (.unsupported mnemonic operand))

/-- Encodes an instruction whose mnemonic is written in upper case. -/
def encode (ctx : Context) (mnemonic : Token) (operands : List Token) : Except Cause Code :=
  match vocabulary.form? mnemonic with
  | some form => form.encode ctx mnemonic operands
  | none => .error (.unknownInstruction mnemonic)

end Octet.Cdc6504
