import Octet.Proofs.Machine.Run

/-!
# Staying between instructions

A set of addresses is `Closed` under the control flow of a program if the instruction at each of
them is known and leads nowhere but to addresses of the set. A machine that stands on such an
address stays on them, whatever is done to its registers and to its data in the meantime: the
program counter is moved by instructions only.

The main statement is `Inside.step`; the other lemmas say the same of runs and of all that the
outside can do short of changing the program.
-/

namespace Octet

/-- The instruction at an address of a program. -/
def Isa.fetch (isa : Isa) (program : Bank) (a : UInt8) : Instruction :=
  isa.decode (program.read a) (program.read (a + 1))

/-- Addresses that the control flow of a program does not leave. -/
structure Closed (isa : Isa) (program : Bank) (B : UInt8 → Prop) : Prop where
  /-- The instructions are known. -/
  known : ∀ a, B a → (isa.fetch program a).op ≠ .unknown
  /-- What stands behind an instruction is in the set. -/
  behind : ∀ a, B a → B (a + (isa.fetch program a).size)
  /-- The targets of jumps and branches are in the set. -/
  target : ∀ a, B a → ∀ target,
    (isa.fetch program a).op.target? (a + (isa.fetch program a).size) = some target → B target

namespace Machine

variable {isa : Isa} {program : Bank} {B : UInt8 → Prop} {m : Machine isa}

/-- The machine holds the program, stands on an address of the set, and has not met an instruction
that is unknown. -/
structure Inside (program : Bank) (B : UInt8 → Prop) (m : Machine isa) : Prop where
  instructions : m.instructions = program
  pc : B m.pc
  fault : ∀ fault, m.state = .errored fault → ∃ pc, RangeFault isa pc fault

theorem Inside.fetch_eq (h : m.Inside program B) : m.fetch = isa.fetch program m.pc := by
  rw [← h.instructions]
  rfl

theorem Inside.step (hclosed : Closed isa program B) (h : m.Inside program B) :
    m.step.1.Inside program B := by
  by_cases hrunning : m.state.isRunning
  · refine ⟨step_instructions.trans h.instructions, ?_, ?_⟩
    -- the program counter goes where the set is closed, or stays
    · rcases step_cases hrunning with ⟨hpc, _⟩ | ⟨target, htarget, hpc, _⟩ | ⟨_, hpc, _⟩ |
        ⟨fault, hpc, _⟩
      · rw [hpc, h.fetch_eq]
        exact hclosed.behind m.pc h.pc
      · rw [hpc]
        rw [h.fetch_eq] at htarget
        exact hclosed.target m.pc h.pc target htarget
      · rw [hpc, h.fetch_eq]
        exact hclosed.behind m.pc h.pc
      · rw [hpc]
        exact h.pc
    -- a fault of the step is no unknown instruction
    · intro fault hfault
      rcases step_cases hrunning with ⟨_, hstate⟩ | ⟨_, _, _, hstate⟩ | ⟨_, _, hstate⟩ |
        ⟨fault', _, hstate, hrange⟩
      · cases hstate.symm.trans hfault
      · cases hstate.symm.trans hfault
      · cases hstate.symm.trans hfault
      · obtain rfl := RunState.errored.inj (hstate.symm.trans hfault)
        rcases hrange with hrange | ⟨hunknown, _⟩
        · exact ⟨m.pc, hrange⟩
        · rw [h.fetch_eq] at hunknown
          exact absurd hunknown (hclosed.known m.pc h.pc)
  · rw [step_of_not_running (by simpa using hrunning)]
    exact h

theorem Inside.run (hclosed : Closed isa program B) (h : m.Inside program B) (n : Nat) :
    (m.run n).1.Inside program B :=
  run_induction (fun _ hm => hm.step hclosed) h n

theorem Inside.resume (h : m.Inside program B) : m.resume.Inside program B := by
  unfold Machine.resume
  split
  · exact ⟨h.instructions, h.pc, nofun⟩
  · exact h

theorem Inside.forceRunning (h : m.Inside program B) : m.forceRunning.Inside program B :=
  ⟨h.instructions, h.pc, nofun⟩

theorem Inside.writeData (h : m.Inside program B) (data : Bank) :
    ({ m with data } : Machine isa).Inside program B :=
  ⟨h.instructions, h.pc, h.fault⟩

theorem Inside.hostWriteRegister (h : m.Inside program B) (r : Reg) (v : UInt8) :
    (m.hostWriteRegister r v).1.Inside program B := by
  have hcontrol := writeRegister_sameControl m r v m.pc
  rw [hostWriteRegister_eq]
  refine ⟨hcontrol.instructions.trans h.instructions, hcontrol.pc ▸ h.pc, ?_⟩
  intro fault hstate
  cases hfault : (m.writeRegister r v m.pc).2 with
  | none =>
    rw [hfault] at hstate
    exact h.fault fault hstate
  | some fault' =>
    rw [hfault] at hstate
    obtain rfl := RunState.errored.inj hstate
    exact ⟨m.pc, writeRegister_fault hfault⟩

end Machine

end Octet
