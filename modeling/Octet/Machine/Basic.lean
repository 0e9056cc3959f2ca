import Octet.Bank
import Octet.Isa
import Octet.Machine.Fault
import Octet.Machine.Trace

/-!
# Machines

A `Machine isa` is everything that executing instructions of one instruction set depends on or
changes: program counter, registers, flags, run state, the two memories, the trace and the output.

Registers are written in one way only, `writeRegister`, by instructions and from outside alike. It
notes the result in the flags, carries out what the role of the register asks for, and then looks
whether all address registers are in range; the values stay written when one is not.
-/

namespace Octet

/-- The state of a machine. -/
structure Machine (isa : Isa) where
  /-- The address of the next instruction. -/
  pc : UInt8 := 0
  registers : RegisterFile := .zero
  flags : Flags := isa.flagModel.initial
  state : RunState := .running
  instructions : Bank := .zero
  data : Bank := .zero
  trace : Trace := { enabled := true, limit := none }
  /-- What halting instructions have printed. -/
  output : String := ""
  deriving DecidableEq

namespace Machine

variable {isa : Isa}

/-- Program counter, registers and flags. -/
def snapshot (m : Machine isa) : Registers :=
  { pc := m.pc, file := m.registers, flags := m.flags }

/-! ## Run states -/

/-- Everything but the memories as it was at first. -/
def reset (m : Machine isa) : Machine isa :=
  { m with
    pc := 0
    registers := .zero
    flags := isa.flagModel.initial
    state := .running
    trace := m.trace.clear
    output := "" }

/-- Goes on after a halt. A fault cannot be resumed from. -/
def resume (m : Machine isa) : Machine isa :=
  match m.state with
  | .halted => { m with state := .running }
  | _ => m

/-- Goes on in any case. The instruction that faulted is executed once more. -/
def forceRunning (m : Machine isa) : Machine isa :=
  { m with state := .running }

/-- Takes over registers and run state. -/
def restore (m : Machine isa) (registers : Registers) (state : RunState) : Machine isa :=
  { m with pc := registers.pc, registers := registers.file, flags := registers.flags, state }

/-! ## Writing registers -/

/-- Sets a register and does nothing else. -/
def setRegister (m : Machine isa) (r : Reg) (value : UInt8) : Machine isa :=
  { m with registers := m.registers.write r value }

/-- What writing a register does to the data memory and to the paired register. -/
def couple (m : Machine isa) (r : Reg) : Machine isa :=
  let address := m.registers.read r
  match isa.layout.role r with
  | .data => m
  | .load paired => m.setRegister paired (m.data.read address)
  | .store paired => { m with data := m.data.write address (m.registers.read paired) }

/-- The fault of the first address register that is not below the limit, if there is one. -/
def rangeFault? (m : Machine isa) (pc : UInt8) : Option Fault :=
  match isa.layout.addressLimit with
  | none => none
  | some limit =>
    (isa.layout.addressRegisters.find? fun r => limit ≤ m.registers.read r).map fun r =>
      .addressOutOfRange pc r (m.registers.read r)

/-- Writes a register, with all that it entails, on behalf of the instruction at `pc`. -/
def writeRegister (m : Machine isa) (r : Reg) (value pc : UInt8) : Machine isa × Option Fault :=
  let m := { m.setRegister r value with flags := m.flags.noteResult value }
  let m := m.couple r
  (m, m.rangeFault? pc)

/-- Writes a register from outside. A fault stops the machine. -/
def hostWriteRegister (m : Machine isa) (r : Reg) (value : UInt8) :
    Machine isa × Option Fault :=
  match m.writeRegister r value m.pc with
  | (m, none) => (m, none)
  | (m, some fault) => ({ m with state := .errored fault }, some fault)

/-- The machine, for a log. -/
def describe (m : Machine isa) : String :=
  let values := Text.list (m.registers.toList.map Text.decimal)
  Text.record "CpuCore" [("isa", isa.describe), ("pc", Text.decimal m.pc),
    ("regs", Text.record "RegFile" [("regs", values)]), ("flags", m.flags.describe),
    ("state", m.state.describe)]

end Machine

end Octet
