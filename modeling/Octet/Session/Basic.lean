import Octet.Assembly.Program
import Octet.Machine.Step
import Octet.Snapshot

/-!
# Sessions

A `Session` is a machine at a workbench: programs are assembled and loaded, run step by step or up
to a limit, registers and memories are edited from outside by name, and the whole state is saved and
restored. Whatever fails leaves the session as it was, apart from a register written from outside
with a fault, which is a fault like any other.
-/

namespace Octet

/-- A machine with its settings and what has been done with it. -/
structure Session where
  config : Config
  machine : Machine config.isa
  /-- The program that has been loaded last. -/
  program : Option Assembly.Program := none
  /-- The number of instructions executed since then. -/
  steps : Nat := 0

namespace Session

/-- A session at its start. -/
def ofConfig (config : Config) : Session where
  config
  machine := { trace := { enabled := config.trace, limit := config.traceLimit } }

/-- What can be wrong with an edit or with a snapshot. -/
inductive Error where
  | unknownRegister (name : Token)
  | faulted (fault : Fault)
  /-- The snapshot is of another instruction set. -/
  | isaMismatch (expected found : Isa)
  /-- A memory of the snapshot has this many bytes. -/
  | badMemory (size : Nat)
  /-- The text of the snapshot cannot be read. -/
  | malformedSnapshot
  deriving DecidableEq

/-- The wording of an error. -/
def Error.message : Error → String
  | unknownRegister name => s!"unknown register `{String.ofList name}`"
  | faulted fault => fault.message
  | isaMismatch expected found =>
    s!"snapshot was taken on {found.name}, this machine is {expected.name}"
  | badMemory size => s!"snapshot memory must be 256 bytes, got {size}"
  | malformedSnapshot => "malformed snapshot"

/-! ## Loading and running -/

/-- Everything as it was at the start. -/
def reset (s : Session) : Session :=
  { s with
    machine := { s.machine.reset with instructions := .zero, data := .zero }
    program := none
    steps := 0 }

/-- Resets the session and puts a program into its memories. -/
def install (s : Session) (program : Assembly.Program) : Session :=
  let fresh := s.reset
  { fresh with
    machine :=
      { fresh.machine with instructions := program.instructions, data := program.data }
    program := some program }

/-- Assembles a source text and loads it. -/
def load (s : Session) (source : String) :
    Except (List Assembly.Diagnostic) (Session × Assembly.Program) :=
  match Assembly.assemble s.config.isa source with
  | .ok program => .ok (s.install program, program)
  | .error diagnostics => .error diagnostics

/-- Executes one instruction, if the machine is running. -/
def step : Session → Session × Option Entry
  | { config, machine, program, steps } =>
    match machine.step with
    | (machine, some entry) => ({ config, machine, program, steps := steps + 1 }, some entry)
    | (machine, none) => ({ config, machine, program, steps }, none)

/-- Executes at most `n` instructions, and gives the number of those that were executed. -/
def run (s : Session) (n : Nat) : Session × Nat :=
  let (machine, executed) := s.machine.run n
  ({ s with machine, steps := s.steps + executed }, executed)

/-- Executes instructions up to the limit of the configuration. -/
def runToLimit (s : Session) : Session × Nat :=
  s.run s.config.maxSteps

/-- Goes on after a halt. -/
def resume (s : Session) : Session :=
  { s with machine := s.machine.resume }

/-- Goes on in any case. -/
def forceRunning (s : Session) : Session :=
  { s with machine := s.machine.forceRunning }

/-- Whether instructions are executed. -/
def isRunning (s : Session) : Bool :=
  s.machine.state.isRunning

/-! ## Edits from outside -/

/-- The register with a name. -/
def register (s : Session) (name : Token) : Except Error Reg :=
  match s.config.isa.layout.register? name with
  | some r => .ok r
  | none => .error (.unknownRegister name)

/-- The value of the register with a name. -/
def readRegister (s : Session) (name : Token) : Except Error UInt8 :=
  (s.register name).map s.machine.registers.read

/-- Writes the register with a name as an instruction would. The session is the one after the
write, whether or not it faults. -/
def writeRegister (s : Session) (name : Token) (value : UInt8) : Session × Except Error Unit :=
  match s.register name with
  | .error e => (s, .error e)
  | .ok r =>
    match s.machine.hostWriteRegister r value with
    | (machine, none) => ({ s with machine }, .ok ())
    | (machine, some fault) => ({ s with machine }, .error (.faulted fault))

/-- Changes a byte of the data memory. -/
def writeData (s : Session) (address value : UInt8) : Session :=
  { s with machine := { s.machine with data := s.machine.data.write address value } }

/-- Changes a byte of the instruction memory. -/
def writeInstruction (s : Session) (address value : UInt8) : Session :=
  { s with machine := { s.machine with instructions := s.machine.instructions.write address value } }

/-! ## Saving and restoring -/

/-- The state to be saved. -/
def snapshot (s : Session) : Snapshot where
  isa := s.config.isa
  registers := s.machine.snapshot
  state := s.machine.state
  instructions := s.machine.instructions.toList
  data := s.machine.data.toList

/-- A bank with the bytes of a snapshot. -/
def memory (bytes : List UInt8) : Except Error Bank :=
  match Bank.ofList? bytes with
  | some bank => .ok bank
  | none => .error (.badMemory bytes.length)

/-- The session with the given state in place of its own. -/
def restore (s : Session) (snapshot : Snapshot) : Except Error Session :=
  if snapshot.isa = s.config.isa then do
    let instructions ← memory snapshot.instructions
    let data ← memory snapshot.data
    let fresh := s.reset
    let machine := fresh.machine.restore snapshot.registers snapshot.state
    return { fresh with machine := { machine with instructions, data } }
  else .error (.isaMismatch s.config.isa snapshot.isa)

/-- The session with the state that a text holds. -/
def restoreText (s : Session) (text : String) : Except Error Session :=
  match Snapshot.ofText? text with
  | some snapshot => s.restore snapshot
  | none => .error .malformedSnapshot

/-! ## Description -/

/-- The session, for a log. -/
def describe (s : Session) : String :=
  Text.record "SimEnv" [("config", s.config.describe), ("cpu", s.machine.describe),
    ("steps_executed", toString s.steps)]

end Session

end Octet
