import Octet.Opcode

/-!
# The CDC6504: registers and opcodes

The CDC6504 works on one accumulator, `ACC` (also written `A`), and two index registers `X` and
`Y`. It keeps zero, negative and carry bits, and none of its registers is an address register.

Every opcode is a whole byte. The byte after it, where there is one, is a value, an address in data
memory, the target of a jump, or the signed distance of a branch.
-/

namespace Octet.Cdc6504

/-- The accumulator. -/
def acc : Reg := 0

/-- The first index register. -/
def x : Reg := 1

/-- The second index register. -/
def y : Reg := 2

/-- The registers: an accumulator and two index registers. -/
def layout : RegisterLayout where
  names := ["ACC", "X", "Y"]
  aliases := [("A", acc)]
  roles := [.data, .data, .data]
  addressLimit := none

/-! ## The decode table -/

/-- An instruction without operands. -/
def implied (name : String) (opcode : UInt8) (op : Op) : Opcode where
  name
  mask := 0xFF
  pattern := opcode
  size := 1
  meaning _ _ := op

/-- An instruction with a byte after its opcode. -/
def withByte (name : String) (opcode : UInt8) (op : UInt8 → Op) : Opcode where
  name
  mask := 0xFF
  pattern := opcode
  size := 2
  meaning _ next := op next

/-- An instruction on a register and the byte that follows. -/
def onValue (name : String) (opcode : UInt8) (op : Reg → Source → Op) (r : Reg) : Opcode :=
  withByte name opcode fun next => op r (.immediate next)

/-- An instruction on a register and the data byte at an address. -/
def onMemory (name : String) (opcode : UInt8) (op : Reg → Source → Op) (r : Reg)
    (index : Option Reg) : Opcode :=
  withByte name opcode fun next => op r (.memory next index)

/-- An instruction that stores a register. -/
def storing (name : String) (opcode : UInt8) (r : Reg) (index : Option Reg) : Opcode :=
  withByte name opcode fun next => .store r next index

/-- A conditional branch. -/
def branch (name : String) (opcode : UInt8) (condition : Condition) : Opcode :=
  withByte name opcode fun next => .branch condition next.toInt8

/-- The rules, one for each opcode. -/
def table : DecodeTable where
  name := "CDC6504"
  opcodes :=
    [implied "BRK" 0x00 .halt,
      onValue "LDA" 0xA9 .load acc,
      onMemory "LDA" 0xA5 .load acc none,
      onMemory "LDA" 0xB5 .load acc (some x),
      onMemory "LDA" 0xB9 .load acc (some y),
      onValue "LDX" 0xA2 .load x,
      onMemory "LDX" 0xA6 .load x none,
      onValue "LDY" 0xA0 .load y,
      onMemory "LDY" 0xA4 .load y none,
      storing "STA" 0x85 acc none,
      storing "STA" 0x95 acc (some x),
      storing "STA" 0x99 acc (some y),
      storing "STX" 0x86 x none,
      storing "STY" 0x84 y none,
      onValue "CMP" 0xC9 .compare acc,
      onMemory "CMP" 0xC5 .compare acc none,
      onValue "CPX" 0xE0 .compare x,
      onMemory "CPX" 0xE4 .compare x none,
      onValue "CPY" 0xC0 .compare y,
      onMemory "CPY" 0xC4 .compare y none,
      onValue "ADC" 0x69 .add acc,
      onMemory "ADC" 0x65 .add acc none,
      onValue "SBC" 0xE9 .sub acc,
      onMemory "SBC" 0xE5 .sub acc none,
      implied "INX" 0xE8 (.inc x),
      implied "INY" 0xC8 (.inc y),
      implied "DEX" 0xCA (.dec x),
      implied "DEY" 0x88 (.dec y),
      implied "TAX" 0xAA (.transfer x acc),
      implied "TAY" 0xA8 (.transfer y acc),
      implied "TXA" 0x8A (.transfer acc x),
      implied "TYA" 0x98 (.transfer acc y),
      implied "CLX" 0xE2 (.clear x),
      implied "CLY" 0xC2 (.clear y),
      branch "BEQ" 0xF0 .zero,
      branch "BNE" 0xD0 .notZero,
      branch "BMI" 0x30 .negative,
      branch "BPL" 0x10 .positive,
      branch "BCC" 0x90 .carryClear,
      branch "BCS" 0xB0 .carrySet,
      withByte "JMP" 0x4C fun next => .jump .always next]

end Octet.Cdc6504
