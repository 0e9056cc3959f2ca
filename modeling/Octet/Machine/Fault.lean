import Octet.Registers
import Octet.Text.Numeral
import Octet.Text.Record

/-!
# Faults and run states

A machine runs until an instruction halts it or a `Fault` stops it. Both are states in which no
instruction is executed.
-/

namespace Octet

/-- What can go wrong when an instruction is executed or a register is written from outside. -/
inductive Fault where
  /-- The byte at `pc` is no opcode. -/
  | invalidOpcode (pc opcode : UInt8)
  /-- After the instruction at `pc` an address register is not below its limit. -/
  | addressOutOfRange (pc : UInt8) (register : Reg) (value : UInt8)
  deriving DecidableEq

namespace Fault

/-- The number that a program run from the command line ends with. -/
def code : Fault → UInt8
  | invalidOpcode .. => 1
  | addressOutOfRange .. => 3

/-- The address of the instruction. -/
def pc : Fault → UInt8
  | invalidOpcode pc _ => pc
  | addressOutOfRange pc _ _ => pc

/-- The wording of a fault. -/
def message : Fault → String
  | invalidOpcode pc opcode =>
    s!"invalid opcode 0x{Text.hexUpper opcode} at pc 0x{Text.hexLower pc}"
  | addressOutOfRange pc register value =>
    s!"address register r{register.toNat} out of range ({value.toNat}) at pc 0x{Text.hexLower pc}"

/-- The fault, for a log. -/
def describe : Fault → String
  | invalidOpcode pc opcode =>
    Text.record "InvalidOpcode" [("pc", Text.decimal pc), ("opcode", Text.decimal opcode)]
  | addressOutOfRange pc register value =>
    Text.record "AddressOutOfRange" [("pc", Text.decimal pc), ("register", Text.decimal register),
      ("value", Text.decimal value)]

end Fault

/-- Whether a machine executes instructions. -/
inductive RunState where
  | running
  | halted
  | errored (fault : Fault)
  deriving DecidableEq

namespace RunState

/-- Whether instructions are executed. -/
def isRunning : RunState → Bool
  | running => true
  | halted => false
  | errored _ => false

/-- The fault that stopped the machine. -/
def fault? : RunState → Option Fault
  | running => none
  | halted => none
  | errored fault => some fault

/-- The number that a program run from the command line ends with. -/
def code : RunState → UInt8
  | running => 0
  | halted => 0
  | errored fault => fault.code

/-- The state, for a log. -/
def describe : RunState → String
  | running => "Running"
  | halted => "Halted"
  | errored fault => "Errored(" ++ fault.describe ++ ")"

end RunState

end Octet
