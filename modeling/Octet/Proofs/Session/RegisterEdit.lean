import Octet.Proofs.Encoding.Text
import Octet.Proofs.Machine.Effect
import Octet.Proofs.Session.Action

/-!
# Registers that are edited

An edit of a register does what the instruction does that loads the new value: `Isa.loading` is this
instruction as it is written, and `Machine.Poised` a machine that is about to execute a code. The two
ways meet in `Machine.writeRegister`, whose result depends on registers, flags and data only
(`Machine.writeRegister_congr`). What else a step and an edit do is told by `step_load` and by
`hostWriteRegister_eq`.

The main statement is `Session.writeRegister_eq_load`.
-/

namespace Octet

variable {isa : Isa}

/-! ## The instruction that loads a value -/

variable {ctx : Assembly.Context} {name : Token} {r : Reg}

namespace Cdc8512

/-- The instruction that loads a value into a register, as it is written: its name and its operands. -/
def loading (r : Reg) (v : UInt8) : String × List Token :=
  ("SET", [(layout.name r).toList, (Text.decimal v).toList])

theorem encode_loading (hlabels : ctx.labels = []) (hr : layout.register? name = some r)
    (v : UInt8) :
    encode ctx (loading r v).1.toList (loading r v).2 = .ok (.two (0x80 ||| r) v) ∧
      Denotes ctx (loading r v).1 (loading r v).2 (.load r (.immediate v)) := by
  have hname := register?_name (register?_lt hr)
  have hvalue := ctx.value_decimal hlabels v
  have hform : vocabulary.form? (loading r v).1.toList = some (.withByte 0x80) :=
    Vocabulary.form?_of_mem (by decide) (by simp [vocabulary, loading])
  refine ⟨?_, .onValue .load, by simp [senses, loading], .onValue hname hvalue⟩
  rw [encode, hform]
  exact bind_eq_ok.mpr ⟨r, Assembly.registerNamed_eq_ok.mpr hname, bind_eq_ok.mpr ⟨v, hvalue, rfl⟩⟩

end Cdc8512

namespace Cdc6504

/-- The instruction that loads a value into a register, as it is written: its name and its operands.
There is a name for each register. -/
def loading (r : Reg) (v : UInt8) : String × List Token :=
  (if r = x then "LDX" else if r = y then "LDY" else "LDA", ['#' :: (Text.decimal v).toList])

theorem exists_encode_loading (hlabels : ctx.labels = []) (hr : layout.register? name = some r)
    (v : UInt8) :
    ∃ opcode, encode ctx (loading r v).1.toList (loading r v).2 = .ok (.two opcode v) ∧
      Denotes ctx (loading r v).1 (loading r v).2 (.load r (.immediate v)) := by
  have hread : Operands ctx r ['#' :: (Text.decimal v).toList] (.immediate v true) :=
    .plain (by simp) (.hashed (ctx.value_decimal hlabels v))
  -- the name of the instruction for this register, with the opcode that it has for values
  obtain ⟨modes, opcode, hmodes, hmem, hsense⟩ : ∃ modes opcode,
      modes.immediate = some opcode ∧ ((loading r v).1, Form.data r modes) ∈ vocabulary ∧
        ((loading r v).1, Sense.reads r (.load r)) ∈ senses := by
    rcases register?_cases hr with rfl | rfl | rfl
    · exact ⟨⟨some 0xA9, some 0xA5, some 0xB5, some 0xB9⟩, 0xA9, rfl,
        by simp [vocabulary, loading, acc, x, y], by simp [senses, loading, acc, x, y]⟩
    · exact ⟨{ immediate := some 0xA2, zeroPage := some 0xA6 }, 0xA2, rfl,
        by simp [vocabulary, loading, valueForm], by simp [senses, loading]⟩
    · exact ⟨{ immediate := some 0xA0, zeroPage := some 0xA4 }, 0xA0, rfl,
        by simp [vocabulary, loading, valueForm, x, y], by simp [senses, loading, x, y]⟩
  refine ⟨opcode, ?_, .reads r (.load r), hsense, .reads hread⟩
  rw [encode, Vocabulary.form?_of_mem (by decide) hmem]
  exact Form.encode_data_eq_ok_iff.mpr ⟨_, hread, by simp [Modes.code?, hmodes]⟩

end Cdc6504

namespace Isa

/-- The instruction that loads a value into a register, as it is written. -/
def loading : Isa → Reg → UInt8 → String × List Token
  | cdc8512 => Cdc8512.loading
  | cdc6504 => Cdc6504.loading

/-- A load of a declared register is encoded in two bytes, and these are decoded to it. -/
theorem exists_encode_loading (hlabels : ctx.labels = [])
    (hr : isa.layout.register? name = some r) (v : UInt8) :
    ∃ opcode, isa.encode ctx (isa.loading r v).1.toList (isa.loading r v).2 =
        .ok (.two opcode v) ∧
      (isa.decode opcode v).op = .load r (.immediate v) := by
  obtain ⟨opcode, hcode, hdenotes⟩ : ∃ opcode,
      isa.encode ctx (isa.loading r v).1.toList (isa.loading r v).2 = .ok (.two opcode v) ∧
        isa.Denotes ctx (isa.loading r v).1 (isa.loading r v).2 (.load r (.immediate v)) := by
    cases isa with
    | cdc8512 => exact ⟨_, Cdc8512.encode_loading hlabels hr v⟩
    | cdc6504 => exact Cdc6504.exists_encode_loading hlabels hr v
  refine ⟨opcode, hcode, ?_⟩
  obtain ⟨name', op, hname, _, hdenotes', hdecode⟩ := decode_of_encode hcode
  obtain rfl := String.toList_inj.mp hname
  obtain rfl := hdenotes.unique hdenotes'
  exact congrArg Instruction.op hdecode

end Isa

/-! ## Machines with the same contents -/

namespace Machine

variable {m m' : Machine isa} {v : UInt8}

/-- The machines agree in program counter, registers, flags and data. -/
structure SameContents (m m' : Machine isa) : Prop where
  pc : m'.pc = m.pc
  registers : m'.registers = m.registers
  flags : m'.flags = m.flags
  data : m'.data = m.data

/-- What becomes of registers, flags and data when a register is written, and whether the write
faults, depends on them only. -/
theorem writeRegister_congr (h : m.SameContents m') (r : Reg) (v pc : UInt8) :
    (m.writeRegister r v pc).1.SameContents (m'.writeRegister r v pc).1 ∧
      (m.writeRegister r v pc).2 = (m'.writeRegister r v pc).2 := by
  obtain ⟨hpc, hregisters, hflags, hdata⟩ := h
  rcases m with ⟨⟩
  rcases m' with ⟨⟩
  obtain rfl := hpc
  obtain rfl := hregisters
  obtain rfl := hflags
  obtain rfl := hdata
  unfold writeRegister couple rangeFault?
  cases isa.layout.role r <;> exact ⟨⟨rfl, rfl, rfl, rfl⟩, rfl⟩

/-! ## Steps -/

/-- The machine is about to execute an instruction with this code. -/
structure Poised (m : Machine isa) (code : Code) : Prop where
  running : m.state = .running
  first : m.instructions.read m.pc = code.first
  second : m.instructions.read (m.pc + 1) = code.second (m.instructions.read (m.pc + 1))

/-- Any machine can be brought in front of an instruction of two bytes, also where the second one has
to stand at address zero. -/
theorem poised_writeBytes (m : Machine isa) (opcode operand : UInt8) :
    ({ m with
        state := .running
        instructions := m.instructions.writeBytes m.pc [opcode, operand] } : Machine isa).Poised
      (.two opcode operand) := by
  have hne : m.pc + 1 ≠ m.pc := by simp
  refine ⟨rfl, ?_, ?_⟩
  · show ((m.instructions.write m.pc opcode).write (m.pc + 1) operand).read m.pc = opcode
    rw [Bank.read_write_of_ne _ _ hne, Bank.read_write_self]
  · exact Bank.read_write_self _ _ _

theorem Poised.fetch_op {opcode operand : UInt8} (h : m.Poised (.two opcode operand)) :
    m.fetch.op = (isa.decode opcode operand).op := by
  rw [fetch, h.first, h.second]
  rfl

/-- A step that loads a value writes it to the register, and stops with the fault of this write if
there is one. -/
theorem step_load (hrunning : m.state = .running) (hop : m.fetch.op = .load r (.immediate v)) :
    let written := m.writeRegister r v m.pc
    m.step.1.registers = written.1.registers ∧ m.step.1.flags = written.1.flags ∧
      m.step.1.data = written.1.data ∧ m.step.1.state.fault? = written.2 := by
  intro written
  obtain ⟨trace, hstep⟩ := step_eq (m := m) (by rw [hrunning]; rfl)
  have hexecute : m.execute m.fetch = m.writeBack r v := by
    rw [execute, hop]
    rfl
  have hstate : written.1.state = .running :=
    (writeRegister_sameControl m r v m.pc).state.trans hrunning
  rw [hstep, hexecute, writeBack, show m.writeRegister r v m.pc = written from rfl]
  rcases written with ⟨after, _ | fault⟩
  · exact ⟨rfl, rfl, rfl, congrArg RunState.fault? hstate⟩
  · exact ⟨rfl, rfl, rfl, rfl⟩

/-- An edit takes over what a machine with the same contents comes to by loading the value, and its
fault, if it has one. -/
theorem hostWriteRegister_eq_step (h : m.SameContents m') (hrunning : m'.state = .running)
    (hop : m'.fetch.op = .load r (.immediate v)) :
    m.hostWriteRegister r v =
      ({ m with
          registers := m'.step.1.registers
          flags := m'.step.1.flags
          data := m'.step.1.data
          state := (m'.step.1.state.fault?.map RunState.errored).getD m.state },
        m'.step.1.state.fault?) := by
  obtain ⟨hregisters, hflags, hdata, hfault⟩ := step_load hrunning hop
  obtain ⟨hcontents, hfaults⟩ := writeRegister_congr h r v m.pc
  rw [h.pc] at hregisters hflags hdata hfault
  obtain ⟨hpc, _, hinstructions, htrace, houtput⟩ := writeRegister_sameControl m r v m.pc
  rw [hregisters, hflags, hdata, hfault, hcontents.registers, hcontents.flags, hcontents.data,
    ← hfaults, hostWriteRegister_eq]
  generalize m.writeRegister r v m.pc = written at hpc hinstructions htrace houtput
  simp only [hpc, hinstructions, htrace, houtput]

end Machine

/-! ## Edits -/

namespace Session

/-- **An edit of a register is a write-back.** Take any machine that runs with the same registers,
flags and data at the same address, and has there the instruction that loads the value, as it is
assembled; there is such a machine. Then the edit leaves registers, flags and data as a step of this
machine does, fails exactly if the step faults and with the same fault, and puts the machine into this
fault. Nothing else changes, and without a fault neither does the run state. -/
theorem writeRegister_eq_load (s : Session) {name : Token} {r : Reg}
    (hname : s.config.isa.layout.register? name = some r) (v : UInt8) :
    let instruction := s.config.isa.loading r v
    ∃ code, s.config.isa.encode { address := s.machine.pc } instruction.1.toList instruction.2 =
        .ok code ∧
      (∃ loader, loader.Poised code ∧ s.machine.SameContents loader) ∧
      ∀ loader, loader.Poised code → s.machine.SameContents loader →
        s.writeRegister name v =
          ({ s with
              machine :=
                { s.machine with
                  registers := loader.step.1.registers
                  flags := loader.step.1.flags
                  data := loader.step.1.data
                  state := match loader.step.1.state with
                    | .errored fault => .errored fault
                    | _ => s.machine.state } },
            match loader.step.1.state with
            | .errored fault => .error (.faulted fault)
            | _ => .ok ()) := by
  intro instruction
  have hlabels : ({ address := s.machine.pc } : Assembly.Context).labels = [] := rfl
  obtain ⟨opcode, hcode, hop⟩ := Isa.exists_encode_loading hlabels hname v
  refine ⟨.two opcode v, hcode, ⟨_, s.machine.poised_writeBytes opcode v, ⟨rfl, rfl, rfl, rfl⟩⟩, ?_⟩
  intro loader hpoised hsame
  rw [writeRegister_of_known hname,
    Machine.hostWriteRegister_eq_step hsame hpoised.running (hpoised.fetch_op.trans hop)]
  cases loader.step.1.state <;> rfl

/-- A machine that has halted at address 1 is edited as `SET A0, 40` would write there: `X0` is loaded,
and both fault. -/
theorem writeRegister_eq_load_halted :
    let s := (ofConfig {}).act .step
    let loader : Machine s.config.isa :=
      { s.machine with
        state := .running
        instructions := s.machine.instructions.writeBytes 1 [0x80, 40] }
    let fault : Fault := .addressOutOfRange 1 0 40
    s.machine.state = .halted ∧ s.config.isa.layout.register? "A0".toList = some 0 ∧
      Isa.cdc8512.encode { address := 1 } "SET".toList ["A0".toList, "40".toList] =
        .ok (.two 0x80 40) ∧
      loader.Poised (.two 0x80 40) ∧ s.machine.SameContents loader ∧
      loader.step.1.state = .errored fault ∧
      s.writeRegister "A0".toList 40 =
        ({ s with
            machine :=
              { s.machine with
                registers := loader.step.1.registers
                flags := loader.step.1.flags
                data := loader.step.1.data
                state := .errored fault } },
          .error (.faulted fault)) := by
  intro s loader fault
  have hname : s.config.isa.layout.register? "A0".toList = some 0 := rfl
  have hencode : Isa.cdc8512.encode { address := 1 } "SET".toList ["A0".toList, "40".toList] =
      .ok (.two 0x80 40) := by rfl
  have hpoised : loader.Poised (.two 0x80 40) := s.machine.poised_writeBytes 0x80 40
  have hsame : s.machine.SameContents loader := ⟨rfl, rfl, rfl, rfl⟩
  have hstate : loader.step.1.state = .errored fault := by decide +kernel
  obtain ⟨code, hcode, -, hedit⟩ := writeRegister_eq_load s hname 40
  obtain rfl : .two 0x80 40 = code := Except.ok.inj (hencode.symm.trans hcode)
  have hwritten := hedit loader hpoised hsame
  rw [hstate] at hwritten
  exact ⟨by decide +kernel, hname, hencode, hpoised, hsame, hstate, hwritten⟩

end Session

end Octet
