import Octet.Flags
import Octet.Registers

/-!
# Operations

The two instruction sets are encoded in different ways, but both decode to the operations of this
module, and the machine executes nothing else. An `Instruction` is an operation together with the
bytes it was decoded from; a `Code` is what an assembler writes for one instruction.
-/

namespace Octet

/-- Where an operation takes its second value from. -/
inductive Source where
  | immediate (value : UInt8)
  /-- The data byte at an address, to which an index register may be added. -/
  | memory (address : UInt8) (index : Option Reg)
  | register (r : Reg)
  deriving DecidableEq

/-- What one instruction does. -/
inductive Op where
  /-- Stops and prints the text in data memory. -/
  | halt
  /-- Does nothing. -/
  | nop
  | load (dst : Reg) (src : Source)
  /-- Stores a register at an address, to which an index register may be added. -/
  | store (src : Reg) (address : UInt8) (index : Option Reg)
  | clear (r : Reg)
  | add (dst : Reg) (src : Source)
  | sub (dst : Reg) (src : Source)
  | inc (r : Reg)
  | dec (r : Reg)
  /-- Sets the flags and nothing else. -/
  | compare (r : Reg) (src : Source)
  | transfer (dst src : Reg)
  /-- Goes to an address. -/
  | jump (condition : Condition) (target : UInt8)
  /-- Goes to an address relative to the instruction that follows. -/
  | branch (condition : Condition) (offset : Int8)
  /-- No instruction at all. -/
  | unknown
  deriving DecidableEq

/-- An operation and the bytes it was decoded from. -/
structure Instruction where
  /-- The first byte. -/
  raw : UInt8
  /-- The byte that follows it in memory, whether or not it belongs to the instruction. -/
  next : UInt8
  name : String
  size : UInt8
  op : Op
  deriving DecidableEq

namespace Instruction

/-- What bytes that no rule knows are decoded to. -/
def unknown (raw next : UInt8) : Instruction :=
  { raw, next, name := "Unknown", size := 1, op := .unknown }

/-- The bytes that belong to the instruction: two if its size is two, else one. -/
def bytes (i : Instruction) : List UInt8 :=
  if i.size = 2 then [i.raw, i.next] else [i.raw]

end Instruction

/-- The bytes of an assembled instruction. -/
inductive Code where
  | one (opcode : UInt8)
  | two (opcode operand : UInt8)
  deriving DecidableEq

namespace Code

/-- The bytes in order. -/
def bytes : Code → List UInt8
  | one opcode => [opcode]
  | two opcode operand => [opcode, operand]

/-- The number of bytes. -/
def size : Code → UInt8
  | one _ => 1
  | two .. => 2

theorem length_bytes (code : Code) : code.bytes.length = code.size.toNat := by
  cases code <;> rfl

end Code

end Octet
