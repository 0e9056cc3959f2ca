import Mathlib.Order.Bounds.Basic
import Octet.Proofs.Machine.Refault
import Octet.Proofs.Session.Action

/-!
# What a fault tells

A step faults on what is no instruction, before it has changed anything, and behind a register write
that leaves an address register out of range (`step_errored_iff`). The fault then names the first of
the registers that are `tooHigh` once the instruction has been executed, but the address of the
instruction, at which the machine stays.

A machine is `StoppedHere` if a fault that has stopped it is one at its program counter. Everything
that is done to a session keeps this, except for restoring a snapshot, which may hold anything. The
main statement is `fault_tells_step`.
-/

namespace Octet

/-! ## The first of the address registers -/

/-- In an increasing list the first element with a property is the least one. -/
theorem find?_eq_some_iff_isLeast {l : List Reg} (hsorted : l.Pairwise (· < ·)) {p : Reg → Bool}
    {r : Reg} : l.find? p = some r ↔ IsLeast {q | q ∈ l ∧ p q = true} r := by
  induction l with
  | nil =>
    refine ⟨nofun, ?_⟩
    rintro ⟨⟨hmem, _⟩, _⟩
    cases hmem
  | cons first rest ih =>
    obtain ⟨hfirst, hrest⟩ := List.pairwise_cons.mp hsorted
    by_cases hp : p first = true
    · rw [List.find?_cons_of_pos hp, Option.some.injEq]
      have hleast : IsLeast {q | q ∈ first :: rest ∧ p q = true} first := by
        refine ⟨⟨List.mem_cons_self, hp⟩, ?_⟩
        rintro q ⟨hq, _⟩
        rcases List.mem_cons.mp hq with rfl | hq
        · exact UInt8.le_refl _
        · exact UInt8.le_of_lt (hfirst q hq)
      constructor
      · rintro rfl
        exact hleast
      · rintro ⟨hmem, hlower⟩
        exact UInt8.le_antisymm (hleast.2 hmem) (hlower hleast.1)
    · rw [List.find?_cons_of_neg hp, ih hrest]
      have hsame : {q | q ∈ first :: rest ∧ p q = true} = {q | q ∈ rest ∧ p q = true} := by
        ext q
        constructor
        · rintro ⟨hq, hpq⟩
          refine ⟨(List.mem_cons.mp hq).resolve_left ?_, hpq⟩
          rintro rfl
          exact hp hpq
        · rintro ⟨hq, hpq⟩
          exact ⟨List.mem_cons_of_mem _ hq, hpq⟩
      rw [hsame]

namespace Isa

theorem pairwise_addressRegisters (isa : Isa) :
    isa.layout.addressRegisters.Pairwise (· < ·) := by
  cases isa <;> decide

/-- The address registers are those with such a role, since what is not declared has none. -/
theorem mem_addressRegisters {isa : Isa} {r : Reg} :
    r ∈ isa.layout.addressRegisters ↔ (isa.layout.role r).isAddress = true := by
  have hdeclared : isa.layout.roles.length = isa.layout.count := by cases isa <;> rfl
  unfold RegisterLayout.addressRegisters
  rw [List.mem_filter, and_iff_right_iff_imp]
  intro haddress
  have hlt : r.toNat < isa.layout.count := by
    by_contra hge
    rw [← hdeclared, Nat.not_lt] at hge
    rw [RegisterLayout.role, List.getD_eq_getElem?_getD, List.getElem?_eq_none hge] at haddress
    cases haddress
  exact List.mem_map.mpr ⟨r.toNat, List.mem_range.mpr hlt, UInt8.ofNat_toNat⟩

end Isa

namespace Machine

variable {isa : Isa} {m m' : Machine isa} {r : Reg} {v pc : UInt8} {fault : Fault}

/-- The address registers that are not below the limit, if there is one. -/
def tooHigh (m : Machine isa) : Set Reg :=
  {r | (isa.layout.role r).isAddress = true ∧
    ∃ limit, isa.layout.addressLimit = some limit ∧ limit ≤ m.registers.read r}

/-- The fault of the range is about the first register that is too high. -/
theorem rangeFault?_eq_some_iff : m.rangeFault? pc = some fault ↔
    ∃ r, IsLeast m.tooHigh r ∧ fault = .addressOutOfRange pc r (m.registers.read r) := by
  unfold rangeFault? tooHigh
  cases isa.layout.addressLimit with
  | none =>
    refine ⟨nofun, ?_⟩
    rintro ⟨_, ⟨⟨_, limit, hlimit, _⟩, _⟩, _⟩
    cases hlimit
  | some limit =>
    rw [Option.map_eq_some_iff]
    refine exists_congr fun r => ?_
    rw [find?_eq_some_iff_isLeast isa.pairwise_addressRegisters, eq_comm (a := fault)]
    simp only [Isa.mem_addressRegisters, decide_eq_true_eq, Option.some.injEq, exists_eq_left']

theorem rangeFault?_congr (h : m'.registers = m.registers) : m'.rangeFault? pc = m.rangeFault? pc := by
  unfold rangeFault?
  rw [h]

/-! ## Steps that fault -/

theorem fetch_raw (m : Machine isa) : m.fetch.raw = m.instructions.read m.pc :=
  isa.table.raw_decode _ _

theorem writeBack_fault_iff :
    (m.writeBack r v).2 = .fault fault ↔ (m.writeBack r v).1.rangeFault? m.pc = some fault := by
  have hfault : (m.writeRegister r v m.pc).2 = (m.writeRegister r v m.pc).1.rangeFault? m.pc := rfl
  unfold writeBack
  split
  · next h =>
    rw [h] at hfault
    simp [← hfault]
  · next h =>
    rw [h] at hfault
    simp [← hfault]

/-- A running machine is stopped by a fault exactly if executing its instruction comes to one. -/
theorem step_errored_iff_flow (hrunning : m.state = .running) :
    m.step.1.state = .errored fault ↔ (m.execute m.fetch).2 = .fault fault := by
  obtain ⟨trace, hstep⟩ := step_eq (m := m) (by rw [hrunning]; rfl)
  have hstate := (execute_sameControl m m.fetch).state.trans hrunning
  rw [hstep]
  cases hflow : (m.execute m.fetch).2 with
  | next | jump =>
    show (m.execute m.fetch).1.state = .errored fault ↔ _
    simp [hstate]
  | halt | fault => simp [follow]

/-- **When a step faults.** It does so on what is no instruction, and behind a register write that
leaves an address register too high. -/
theorem step_errored_iff (hrunning : m.state = .running) :
    m.step.1.state = .errored fault ↔
      m.fetch.op = .unknown ∧ fault = .invalidOpcode m.pc (m.instructions.read m.pc) ∨
      (∃ r, m.fetch.op.written? = some r) ∧ ∃ r, IsLeast m.step.1.tooHigh r ∧
        fault = .addressOutOfRange m.pc r (m.step.1.registers.read r) := by
  rw [← rangeFault?_eq_some_iff]
  cases hwritten : m.fetch.op.written? with
  | none =>
    have hnone : ¬ ∃ r, (none : Option Reg) = some r := by simp
    rw [or_iff_left fun h => hnone h.1]
    constructor
    · intro hfault
      have hop := (written?_of_fault hrunning hfault).resolve_right (by rw [hwritten]; exact hnone)
      obtain ⟨_, hstate⟩ := step_of_unknown hrunning hop
      rw [← fetch_raw]
      exact ⟨hop, RunState.errored.inj (hfault.symm.trans hstate)⟩
    · rintro ⟨hop, rfl⟩
      rw [← fetch_raw]
      exact (step_of_unknown hrunning hop).2
  | some r =>
    have hknown : m.fetch.op ≠ .unknown := by
      intro hop
      rw [hop] at hwritten
      cases hwritten
    obtain ⟨v, houtcome⟩ := exists_outcome? m hwritten
    have hregisters : m.step.1.registers =
        (({ m with flags := m.carried m.fetch.op } : Machine isa).writeBack r v).1.registers := by
      rw [(step_contents hrunning).1, execute_eq_writeBack houtcome]
    rw [or_iff_right fun h => hknown h.1, and_iff_right ⟨r, rfl⟩, step_errored_iff_flow hrunning,
      execute_eq_writeBack houtcome, writeBack_fault_iff, rangeFault?_congr hregisters]

/-- What a step that faults leaves, and what its fault tells. -/
structure FaultTells (m : Machine isa) (fault : Fault) : Prop where
  /-- The machine stays at the instruction, and the fault names its address. -/
  pc : m.step.1.pc = m.pc
  fault_pc : fault.pc = m.pc
  /-- One entry is recorded, of this instruction and with the registers as they are now. -/
  entry : ∃ entry, m.step.2 = some entry ∧ m.step.1.trace = m.trace.push entry ∧
    entry.pc = m.pc ∧ entry.registers = m.step.1.snapshot
  invalidOpcode : ∀ pc opcode, fault = .invalidOpcode pc opcode →
    opcode = m.instructions.read m.pc ∧ m.step.1.registers = m.registers ∧
      m.step.1.flags = m.flags ∧ m.step.1.data = m.data ∧ m.step.1.output = m.output
  addressOutOfRange : ∀ pc register value, fault = .addressOutOfRange pc register value →
    IsLeast m.step.1.tooHigh register ∧ value = m.step.1.registers.read register

theorem faultTells (hrunning : m.state = .running) (hfault : m.step.1.state = .errored fault) :
    m.FaultTells fault := by
  obtain ⟨trace, hstep⟩ := step_eq (m := m) (by rw [hrunning]; rfl)
  have hflow := (step_errored_iff_flow hrunning).mp hfault
  rw [hflow] at hstep
  have hpc : m.step.1.pc = m.pc := by
    rw [hstep]
    exact (execute_sameControl m m.fetch).pc
  obtain ⟨hop, rfl⟩ | ⟨_, r, hleast, rfl⟩ := (step_errored_iff hrunning).mp hfault
  · refine ⟨hpc, rfl, step_entry (by rw [hrunning]; rfl), ?_, nofun⟩
    intro pc opcode h
    obtain ⟨rfl, rfl⟩ := Fault.invalidOpcode.inj h
    -- what is no instruction is told by its flow alone
    have hexecute : (m.execute m.fetch).1 = m := by
      unfold execute
      rw [hop]
    rw [hstep, hexecute]
    exact ⟨rfl, rfl, rfl, rfl, rfl⟩
  · refine ⟨hpc, rfl, step_entry (by rw [hrunning]; rfl), nofun, ?_⟩
    intro pc register value h
    obtain ⟨rfl, rfl, rfl⟩ := Fault.addressOutOfRange.inj h
    exact ⟨hleast, rfl⟩

/-! ## Machines stopped where they are -/

/-- A fault that has stopped the machine is one at its program counter. -/
def StoppedHere (m : Machine isa) : Prop :=
  ∀ fault, m.state = .errored fault → fault.pc = m.pc

theorem StoppedHere.of_running (h : m.state = .running) : m.StoppedHere := by
  intro fault hfault
  cases h.symm.trans hfault

theorem StoppedHere.step (h : m.StoppedHere) : m.step.1.StoppedHere := by
  cases hstate : m.state with
  | running =>
    intro fault hfault
    have htells := faultTells hstate hfault
    rw [htells.fault_pc, htells.pc]
  | halted | errored => rwa [step_of_not_running (by rw [hstate]; rfl)]

theorem StoppedHere.resume (h : m.StoppedHere) : m.resume.StoppedHere := by
  unfold Machine.resume
  cases hstate : m.state with
  | halted => exact .of_running rfl
  | running | errored => exact h

theorem StoppedHere.hostWriteRegister (h : m.StoppedHere) (r : Reg) (v : UInt8) :
    (m.hostWriteRegister r v).1.StoppedHere := by
  have hpc := (writeRegister_sameControl m r v m.pc).pc
  rw [hostWriteRegister_eq]
  intro fault hfault
  show fault.pc = (m.writeRegister r v m.pc).1.pc
  rw [hpc]
  cases hwrite : (m.writeRegister r v m.pc).2 with
  | none =>
    rw [hwrite] at hfault
    exact h fault hfault
  | some other =>
    rw [hwrite] at hfault
    obtain rfl := RunState.errored.inj hfault
    obtain ⟨_, _, _, _, _, rfl⟩ := writeRegister_fault hwrite
    rfl

end Machine

namespace Session

open Machine (StoppedHere)

/-- Whether an action takes over a machine from elsewhere. -/
def Action.isRestore : Action → Bool
  | restore _ => true
  | load _ => false
  | step => false
  | run _ => false
  | runToLimit => false
  | resume => false
  | forceRunning => false
  | writeRegister .. => false
  | writeData .. => false
  | writeInstruction .. => false
  | reset => false

theorem kept_stoppedHere : Kept fun _ m => m.StoppedHere where
  reset _ _ _ := .of_running rfl
  step h := h.step
  resume h := h.resume
  write r v h := h.hostWriteRegister r v
  edit _ _ h := h

theorem act_stoppedHere {s : Session} (h : s.machine.StoppedHere) {action : Action}
    (hown : action.isRestore = false) : (s.act action).machine.StoppedHere := by
  cases action with
  | forceRunning => exact .of_running rfl
  | restore => cases hown
  | load | step | run | runToLimit | resume | writeRegister | writeData | writeInstruction | reset =>
    exact kept_stoppedHere.act h _ rfl

/-- **Faults tell what has happened.** A step that comes to a fault stops the machine with this fault,
at the instruction and with one entry in the trace, and nothing else stops it. A fault of the opcode
tells the byte at the program counter, and nothing has been changed. A fault of the range tells the
first address register that is too high after the instruction, and its value. As long as no snapshot
is restored, a fault that has stopped the machine of a session stays one at its program counter. -/
theorem fault_tells_step :
    (∀ (isa : Isa) (m : Machine isa) (fault : Fault), m.state = .running →
      (m.step.1.state = .errored fault ↔ (m.execute m.fetch).2 = .fault fault) ∧
      (m.step.1.state = .errored fault → m.FaultTells fault)) ∧
    ∀ (config : Config) (actions : List Action),
      (∀ action ∈ actions, action.isRestore = false) →
      ∀ fault, ((ofConfig config).acts actions).machine.state = .errored fault →
        fault.pc = ((ofConfig config).acts actions).machine.pc := by
  constructor
  · intro isa m fault hrunning
    exact ⟨Machine.step_errored_iff_flow hrunning, Machine.faultTells hrunning⟩
  · intro config actions hown
    have hstart : (ofConfig config).machine.StoppedHere := .of_running rfl
    exact acts_induction (fun s => s.machine.StoppedHere) (fun action => action.isRestore = false)
      (fun _ _ haction h => act_stoppedHere h haction) hstart actions hown

/-- `SET A3, 50` faults with 200 in `A1`, and it is `A1` that the fault names. A machine that has halted
and is made to fault from outside tells the address behind the halt. -/
theorem fault_tells_step_first :
    let m : Machine .cdc8512 :=
      { registers := RegisterFile.zero.write 1 200
        instructions := Bank.zero.writeBytes 0 [0x83, 50] }
    let s := (ofConfig {}).acts [.step, .writeRegister "A2".toList 77]
    m.step.1.state = .errored (.addressOutOfRange 0 1 200) ∧ IsLeast m.step.1.tooHigh 1 ∧
      s.machine.state = .errored (.addressOutOfRange 1 2 77) ∧ s.machine.pc = 1 := by
  intro m s
  have hstep : m.step.1.state = .errored (.addressOutOfRange 0 1 200) := by decide
  have hstate : s.machine.state = .errored (.addressOutOfRange 1 2 77) := by decide +kernel
  have htells := (fault_tells_step.1 _ m _ rfl).2 hstep
  have hpc := fault_tells_step.2 {} [.step, .writeRegister "A2".toList 77] (by decide) _ hstate
  exact ⟨hstep, (htells.addressOutOfRange _ _ _ rfl).1, hstate, hpc.symm⟩

end Session

end Octet
