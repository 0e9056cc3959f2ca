import Octet.Machine.Step

/-!
# What a step can do

Executing an instruction is split along its two halves. What an operation does to registers, flags
and data memory leaves everything else alone (`SameControl`), and what it does to the rest is told by
its flow alone, of which there are few (`FlowOf`).

* `execute_sameControl`, `execute_flow` — the two halves.
* `step_cases` — all that can become of program counter and run state in one step.
-/

namespace Octet

/-- The address that an operation may go to, given the address behind its instruction. -/
def Op.target? (op : Op) (behind : UInt8) : Option UInt8 :=
  match op with
  | .jump _ target => some target
  | .branch _ offset => some (behind + offset.toUInt8)
  | _ => none

/-- The condition on which an operation goes elsewhere. -/
def Op.condition? : Op → Option Condition
  | .jump condition _ => some condition
  | .branch condition _ => some condition
  | _ => none

namespace Machine

variable {isa : Isa} {m m' m'' : Machine isa} {i : Instruction} {r : Reg} {v : UInt8}

/-! ## Registers, flags and data -/

/-- The machines differ in nothing but registers, flags and data memory. -/
structure SameControl (m m' : Machine isa) : Prop where
  pc : m'.pc = m.pc
  state : m'.state = m.state
  instructions : m'.instructions = m.instructions
  trace : m'.trace = m.trace
  output : m'.output = m.output

theorem SameControl.refl (m : Machine isa) : m.SameControl m :=
  ⟨rfl, rfl, rfl, rfl, rfl⟩

theorem SameControl.trans (h : m.SameControl m') (h' : m'.SameControl m'') : m.SameControl m'' where
  pc := h'.pc.trans h.pc
  state := h'.state.trans h.state
  instructions := h'.instructions.trans h.instructions
  trace := h'.trace.trans h.trace
  output := h'.output.trans h.output

theorem setRegister_sameControl : m.SameControl (m.setRegister r v) :=
  ⟨rfl, rfl, rfl, rfl, rfl⟩

theorem couple_sameControl : m.SameControl (m.couple r) := by
  unfold couple
  simp only
  split
  · exact .refl m
  · exact setRegister_sameControl
  · exact ⟨rfl, rfl, rfl, rfl, rfl⟩

theorem writeRegister_sameControl (m : Machine isa) (r : Reg) (v pc : UInt8) :
    m.SameControl (m.writeRegister r v pc).1 := by
  have hset : m.SameControl { m.setRegister r v with flags := m.flags.noteResult v } :=
    ⟨rfl, rfl, rfl, rfl, rfl⟩
  exact hset.trans couple_sameControl

/-- A fault at `pc` that says that an address register is not below the limit. There is none where
there is no limit. -/
def RangeFault (isa : Isa) (pc : UInt8) (fault : Fault) : Prop :=
  ∃ limit register value, isa.layout.addressLimit = some limit ∧ limit ≤ value ∧
    fault = .addressOutOfRange pc register value

theorem rangeFault?_eq_some {pc : UInt8} {fault : Fault} (h : m.rangeFault? pc = some fault) :
    RangeFault isa pc fault := by
  unfold rangeFault? at h
  split at h
  · cases h
  · next limit hlimit =>
    obtain ⟨register, hfind, rfl⟩ := Option.map_eq_some_iff.mp h
    have hle := List.find?_some hfind
    exact ⟨limit, register, _, hlimit, by simpa using hle, rfl⟩

theorem writeRegister_fault {pc : UInt8} {fault : Fault}
    (h : (m.writeRegister r v pc).2 = some fault) : RangeFault isa pc fault :=
  rangeFault?_eq_some h

/-- A write from outside is a write at the program counter, whose fault becomes the run state. -/
theorem hostWriteRegister_eq (m : Machine isa) (r : Reg) (v : UInt8) :
    m.hostWriteRegister r v =
      ({ (m.writeRegister r v m.pc).1 with
          state := ((m.writeRegister r v m.pc).2.map RunState.errored).getD m.state },
        (m.writeRegister r v m.pc).2) := by
  rw [hostWriteRegister, ← (writeRegister_sameControl m r v m.pc).state]
  rcases m.writeRegister r v m.pc with ⟨written, _ | fault⟩ <;> rfl

theorem writeBack_sameControl : m.SameControl (m.writeBack r v).1 := by
  have hcontrol := writeRegister_sameControl m r v m.pc
  unfold writeBack
  split
  · next h => rwa [h] at hcontrol
  · next h => rwa [h] at hcontrol

theorem writeBack_flow (m : Machine isa) (r : Reg) (v : UInt8) :
    (m.writeBack r v).2 = .next ∨
      ∃ fault, RangeFault isa m.pc fault ∧ (m.writeBack r v).2 = .fault fault := by
  unfold writeBack
  split
  · exact .inl rfl
  · next m' fault h => exact .inr ⟨fault, writeRegister_fault (by rw [h]), rfl⟩

/-- An operation changes nothing but registers, flags and data memory. -/
theorem execute_sameControl (m : Machine isa) (i : Instruction) : m.SameControl (m.execute i).1 := by
  unfold execute
  split
  case h_6 | h_7 =>
    -- the carry is set first, which is no change of control either
    refine SameControl.trans ?_ writeBack_sameControl
    exact ⟨rfl, rfl, rfl, rfl, rfl⟩
  all_goals first
    | exact writeBack_sameControl
    | exact ⟨rfl, rfl, rfl, rfl, rfl⟩

/-! ## Flow -/

/-- The flows that can come of an instruction. -/
inductive FlowOf (m : Machine isa) (i : Instruction) : Flow → Prop where
  | next : FlowOf m i .next
  | jump {target} (h : i.op.target? (m.pc + i.size) = some target) : FlowOf m i (.jump target)
  | halt (h : i.op = .halt) : FlowOf m i .halt
  | range {fault} (h : RangeFault isa m.pc fault) : FlowOf m i (.fault fault)
  | invalid (h : i.op = .unknown) : FlowOf m i (.fault (.invalidOpcode m.pc i.raw))

theorem writeBack_flowOf (hpc : m'.pc = m.pc) : m.FlowOf i (m'.writeBack r v).2 := by
  rcases writeBack_flow m' r v with h | ⟨fault, hfault, h⟩
  · rw [h]
    exact .next
  · rw [h]
    rw [hpc] at hfault
    exact .range hfault

theorem execute_flow (m : Machine isa) (i : Instruction) : m.FlowOf i (m.execute i).2 := by
  unfold execute
  split
  case h_1 h => exact .halt h
  case h_12 condition target h =>
    simp only
    split
    · exact .jump (by rw [h, Op.target?])
    · exact .next
  case h_13 condition offset h =>
    simp only
    split
    · exact .jump (by rw [h, Op.target?])
    · exact .next
  case h_14 h => exact .invalid h
  all_goals first
    | exact .next
    | exact writeBack_flowOf rfl

/-! ## Steps -/

theorem step_of_not_running (h : m.state.isRunning = false) : m.step = (m, none) := by
  simp [step, h]

theorem step_isSome (h : m.state.isRunning = true) : m.step.2.isSome := by
  simp [step, h]

/-- The machine after a step, but for its trace. -/
theorem step_eq (h : m.state.isRunning = true) :
    ∃ trace, m.step.1 =
      { (m.execute m.fetch).1.follow m.fetch (m.execute m.fetch).2 with trace } := by
  unfold step
  rw [if_pos h]
  exact ⟨_, rfl⟩

theorem follow_instructions {flow : Flow} : (m.follow i flow).instructions = m.instructions := by
  cases flow <;> rfl

theorem follow_trace {flow : Flow} : (m.follow i flow).trace = m.trace := by
  cases flow <;> rfl

/-- A step records what it has executed, with the registers after it. -/
theorem step_entry (h : m.state.isRunning = true) :
    ∃ entry, m.step.2 = some entry ∧ m.step.1.trace = m.trace.push entry ∧
      entry.pc = m.pc ∧ entry.registers = m.step.1.snapshot := by
  have htrace : ((m.execute m.fetch).1.follow m.fetch (m.execute m.fetch).2).trace = m.trace :=
    follow_trace.trans (execute_sameControl m m.fetch).trace
  unfold step
  rw [if_pos h]
  exact ⟨_, rfl, congrArg (Trace.push · _) htrace, rfl, rfl⟩

/-- A program cannot write to its own memory. -/
theorem step_instructions : m.step.1.instructions = m.instructions := by
  by_cases h : m.state.isRunning
  · obtain ⟨trace, hstep⟩ := step_eq h
    rw [hstep]
    exact follow_instructions.trans (execute_sameControl m m.fetch).instructions
  · rw [step_of_not_running (by simpa using h)]

/-- A running machine goes on behind the instruction or at its target, halts behind it, or stops at
it with a fault. -/
theorem step_cases (h : m.state.isRunning = true) :
    (m.step.1.pc = m.pc + m.fetch.size ∧ m.step.1.state = .running) ∨
      (∃ target, m.fetch.op.target? (m.pc + m.fetch.size) = some target ∧
        m.step.1.pc = target ∧ m.step.1.state = .running) ∨
      (m.fetch.op = .halt ∧ m.step.1.pc = m.pc + m.fetch.size ∧ m.step.1.state = .halted) ∨
      ∃ fault, m.step.1.pc = m.pc ∧ m.step.1.state = .errored fault ∧
        (RangeFault isa m.pc fault ∨
          m.fetch.op = .unknown ∧ fault = .invalidOpcode m.pc m.fetch.raw) := by
  have hrunning : m.state = .running := by
    cases hstate : m.state <;> simp_all [RunState.isRunning]
  obtain ⟨trace, hstep⟩ := step_eq h
  rw [hstep]
  have hcontrol := execute_sameControl m m.fetch
  have hflow := execute_flow m m.fetch
  generalize (m.execute m.fetch).2 = flow at hflow
  have hpc := hcontrol.pc
  have hstate := hcontrol.state.trans hrunning
  cases hflow with
  | next => exact .inl ⟨by rw [← hpc]; rfl, hstate⟩
  | jump htarget => exact .inr (.inl ⟨_, htarget, rfl, hstate⟩)
  | halt hop => exact .inr (.inr (.inl ⟨hop, by rw [← hpc]; rfl, rfl⟩))
  | range hfault => exact .inr (.inr (.inr ⟨_, hpc, rfl, .inl hfault⟩))
  | invalid hop => exact .inr (.inr (.inr ⟨_, hpc, rfl, .inr ⟨hop, rfl⟩⟩))

/-- A jump or a branch goes to its target if its condition holds, and behind itself if not. -/
theorem step_pc_of_condition {condition : Condition} {target : UInt8} (h : m.state = .running)
    (hcondition : m.fetch.op.condition? = some condition)
    (htarget : m.fetch.op.target? (m.pc + m.fetch.size) = some target) :
    m.step.1.pc = if m.flags.test condition then target else m.pc + m.fetch.size := by
  obtain ⟨trace, hstep⟩ := step_eq (m := m) (by rw [h]; rfl)
  rw [hstep]
  show ((m.execute m.fetch).1.follow m.fetch (m.execute m.fetch).2).pc = _
  have hexecute : m.execute m.fetch =
      (m, if m.flags.test condition then .jump target else .next) := by
    unfold execute
    cases hop : m.fetch.op with
    | jump =>
      rw [hop] at hcondition htarget
      obtain rfl := Option.some.inj hcondition
      obtain rfl := Option.some.inj htarget
      rfl
    | branch =>
      rw [hop] at hcondition htarget
      obtain rfl := Option.some.inj hcondition
      obtain rfl := Option.some.inj htarget
      rfl
    | _ =>
      rw [hop] at hcondition
      cases hcondition
  rw [hexecute]
  cases m.flags.test condition <;> rfl

/-- An operation without a target goes on behind its instruction, unless it faults. -/
theorem step_pc_of_straight (h : m.state = .running)
    (hstraight : m.fetch.op.target? (m.pc + m.fetch.size) = none)
    (hfault : ∀ fault, m.step.1.state ≠ .errored fault) :
    m.step.1.pc = m.pc + m.fetch.size := by
  rcases step_cases (m := m) (by rw [h]; rfl) with ⟨hpc, _⟩ | ⟨target, htarget, _⟩ |
    ⟨_, hpc, _⟩ | ⟨fault, _, hstate, _⟩
  · exact hpc
  · cases hstraight.symm.trans htarget
  · exact hpc
  · exact absurd hstate (hfault fault)

end Machine

end Octet
