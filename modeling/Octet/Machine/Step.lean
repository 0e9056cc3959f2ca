import Octet.Machine.Basic

/-!
# Executing instructions

A step decodes the two bytes at the program counter, carries the operation out, and says by a
`Flow` where execution goes on. Only then are program counter, run state and output changed, and an
entry is added to the trace.

* `Machine.execute` — what an operation does to registers, flags and data memory;
* `Machine.step` — one instruction, if the machine is running;
* `Machine.run` — at most so many instructions.
-/

namespace Octet

/-- Where execution goes on after an operation. -/
inductive Flow where
  /-- With the instruction that follows. -/
  | next
  | jump (target : UInt8)
  /-- Nowhere; the machine halts in front of the instruction that follows. -/
  | halt
  /-- Nowhere; the machine stays where it is. -/
  | fault (fault : Fault)
  deriving DecidableEq

namespace Machine

variable {isa : Isa}

/-! ## Operations -/

/-- An address plus an index register, modulo 256. -/
def effectiveAddress (m : Machine isa) (address : UInt8) (index : Option Reg) : UInt8 :=
  match index with
  | none => address
  | some r => address + m.registers.read r

/-- The value of a source. -/
def value (m : Machine isa) : Source → UInt8
  | .immediate value => value
  | .memory address index => m.data.read (m.effectiveAddress address index)
  | .register r => m.registers.read r

/-- Writes the result of the instruction at the program counter. -/
def writeBack (m : Machine isa) (r : Reg) (value : UInt8) : Machine isa × Flow :=
  match m.writeRegister r value m.pc with
  | (m, none) => (m, .next)
  | (m, some fault) => (m, .fault fault)

/-- Carries out an instruction. Additions and subtractions set the carry before their result is
written. -/
def execute (m : Machine isa) (i : Instruction) : Machine isa × Flow :=
  match i.op with
  | .halt => (m, .halt)
  | .nop => (m, .next)
  | .load dst src => m.writeBack dst (m.value src)
  | .store src address index =>
    ({ m with data := m.data.write (m.effectiveAddress address index) (m.registers.read src) },
      .next)
  | .clear r => m.writeBack r 0
  | .add dst src =>
    let a := m.registers.read dst
    let b := m.value src
    { m with flags := m.flags.setCarry (256 ≤ a.toNat + b.toNat) }.writeBack dst (a + b)
  | .sub dst src =>
    let a := m.registers.read dst
    let b := m.value src
    { m with flags := m.flags.setCarry (b ≤ a) }.writeBack dst (a - b)
  | .inc r => m.writeBack r (m.registers.read r + 1)
  | .dec r => m.writeBack r (m.registers.read r - 1)
  | .compare r src => ({ m with flags := m.flags.compare (m.registers.read r) (m.value src) }, .next)
  | .transfer dst src => m.writeBack dst (m.registers.read src)
  | .jump condition target => (m, if m.flags.test condition then .jump target else .next)
  | .branch condition offset =>
    (m, if m.flags.test condition then .jump (m.pc + i.size + offset.toUInt8) else .next)
  | .unknown => (m, .fault (.invalidOpcode m.pc i.raw))

/-- Changes program counter, run state and output as the flow says. Halting prints the text in data
memory and ends the line. -/
def follow (m : Machine isa) (i : Instruction) : Flow → Machine isa
  | .next => { m with pc := m.pc + i.size }
  | .jump target => { m with pc := target }
  | .halt =>
    { m with
      pc := m.pc + i.size
      state := .halted
      output := m.output ++ m.data.text 0 ++ "\n" }
  | .fault fault => { m with state := .errored fault }

/-! ## Steps -/

/-- The instruction at the program counter. -/
def fetch (m : Machine isa) : Instruction :=
  isa.decode (m.instructions.read m.pc) (m.instructions.read (m.pc + 1))

/-- Executes one instruction, if the machine is running. -/
def step (m : Machine isa) : Machine isa × Option Entry :=
  if m.state.isRunning then
    let i := m.fetch
    let (after, flow) := m.execute i
    let after := after.follow i flow
    let entry : Entry :=
      { pc := m.pc, bytes := i.bytes, text := isa.text i, registers := after.snapshot }
    ({ after with trace := after.trace.push entry }, some entry)
  else (m, none)

/-- Executes at most `n` instructions; `executed` of them have been executed before. Gives the
number of all that have been executed. -/
def runFrom (m : Machine isa) (executed : Nat) : Nat → Machine isa × Nat
  | 0 => (m, executed)
  | n + 1 =>
    match m.step with
    | (m, some _) => m.runFrom (executed + 1) n
    | (m, none) => (m, executed)

/-- Executes at most `n` instructions, and gives the number of those that were executed. -/
def run (m : Machine isa) (n : Nat) : Machine isa × Nat :=
  m.runFrom 0 n

end Machine

end Octet
